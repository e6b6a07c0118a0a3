import SciTECO.Expressions.Balance

/-!
# Stacks above a brace

What is below an open brace is neither read nor changed by the calls that do
not close it.  They do the same on the top of any other stacks.
-/

namespace SciTECO
namespace Expressions

open Undoable

/-- The stacks of `s` on the top of those of `base`. -/
def onTop (base s : Expressions) : Expressions :=
  { s with
    numbers := s.numbers ++ base.numbers
    operators := s.operators ++ base.operators }

@[simp] theorem onTop_numbers (base s : Expressions) :
    (onTop base s).numbers = s.numbers ++ base.numbers := rfl

@[simp] theorem onTop_operators (base s : Expressions) :
    (onTop base s).operators = s.operators ++ base.operators := rfl

@[simp] theorem onTop_numSign (base s : Expressions) :
    (onTop base s).numSign = s.numSign := rfl

@[simp] theorem onTop_braceLevel (base s : Expressions) :
    (onTop base s).braceLevel = s.braceLevel := rfl

/-- Stacks which end in a brace.  More than `closable` braces are on them, so
that many can be closed without touching the last one. -/
structure Grounded (closable level : Nat) (s : Expressions) : Prop where
  bottom : exists ops, s.operators = ops ++ [Operator.brace]
  numbers : s.operators.count Operator.number = s.numbers.length
  braces : closable < s.operators.count Operator.brace
  braceLevel : s.braceLevel = level

/-- `m` leads from `s` to states with `inv`, and `m'` does the same with the
stacks on the top of others. -/
def Retains {α : Type} (base : Expressions) (inv : Expressions -> Prop)
    (m m' : Exec Expressions α) (s : Expressions) : Prop :=
  forall (post : α -> Expressions -> Prop)
    (fail : TecoError -> Expressions -> Prop) (bad : Fault -> Prop),
    wp m (fun a t => inv t -> post a (onTop base t))
      (fun e t => fail e (onTop base t)) bad s ->
    wp m' post fail bad (onTop base s)

variable {base s : Expressions} {inv : Expressions -> Prop}
variable {closable level : Nat}

namespace Retains

variable {α β : Type}

theorem bind {inv' : Expressions -> Prop} {m m' : Exec Expressions α}
    {f f' : α -> Exec Expressions β} (hm : Retains base inv m m' s)
    (hf : forall a t, inv t -> Retains base inv' (f a) (f' a) t) :
    Retains base inv' (m >>= f) (m' >>= f') s := by
  intro post fail bad h
  rw [wp_bind] at h ⊢
  apply hm
  apply wp_call h
  intro a t ht hinv
  exact hf a t hinv post fail bad ht

theorem pure (a : α) (h : inv s) :
    Retains base inv (Pure.pure a) (Pure.pure a) s :=
  fun _ _ _ hpost => hpost h

theorem throw (e : TecoError) :
    Retains base inv (Undoable.throw e : Exec Expressions α)
      (Undoable.throw e) s :=
  fun _ _ _ hfail => hfail

theorem fault (c : Fault) :
    Retains base inv (Undoable.fault c : Exec Expressions α)
      (Undoable.fault c) s :=
  fun _ _ _ hbad => hbad

/-- Both computations read their own state. -/
theorem read {f f' : Expressions -> Exec Expressions β}
    (h : Retains base inv (f s) (f' (onTop base s)) s) :
    Retains base inv (Undoable.get >>= f) (Undoable.get >>= f') s := by
  intro post fail bad hwp
  rw [wp_bind, wp_get] at hwp ⊢
  exact h post fail bad hwp

theorem ite {c : Prop} [Decidable c] {m m' n n' : Exec Expressions α}
    (hm : c -> Retains base inv m m' s)
    (hn : ¬ c -> Retains base inv n n' s) :
    Retains base inv (if c then m else n) (if c then m' else n') s := by
  by_cases h : c
  · rw [if_pos h, if_pos h]
    exact hm h
  · rw [if_neg h, if_neg h]
    exact hn h

theorem weaken {inv' : Expressions -> Prop} {m m' : Exec Expressions α}
    (hm : Retains base inv m m' s) (h : forall t, inv t -> inv' t) :
    Retains base inv' m m' s := by
  intro post fail bad hwp
  apply hm
  apply wp_call hwp
  intro a t ht hinv
  exact ht (h t hinv)

/-- What a computation returns, it returns on the top of other stacks. -/
theorem ok {m m' : Exec Expressions α} (h : Retains base inv m m' s)
    {a : α} {t : Expressions} {tokens : List (Expressions -> Expressions)}
    (hrun : m s = .ok a t tokens) :
    inv t ∧ exists tokens, m' (onTop base s) = .ok a (onTop base t) tokens := by
  have hwp := h (fun b u => inv t ∧ b = a ∧ u = onTop base t)
    (fun _ _ => False) (fun _ => False) (by
      unfold wp
      rw [hrun]
      intro hinv
      exact ⟨hinv, rfl, rfl⟩)
  unfold wp at hwp
  cases hrun' : m' (onTop base s) with
  | ok b u tokens' =>
      rw [hrun'] at hwp
      rcases hwp with ⟨hinv, rfl, rfl⟩
      exact ⟨hinv, tokens', rfl⟩
  | error e u tokens' =>
      rw [hrun'] at hwp
      exact absurd hwp id
  | fault c =>
      rw [hrun'] at hwp
      exact absurd hwp id

/-- It returns nothing else there. -/
theorem ok_inv {m m' : Exec Expressions α} (h : Retains base inv m m' s)
    {a : α} {u : Expressions} {tokens : List (Expressions -> Expressions)}
    (hrun : m' (onTop base s) = .ok a u tokens) :
    exists t tokens, m s = .ok a t tokens ∧ u = onTop base t := by
  have hwp := h
    (fun b v => exists t tokens, m s = .ok b t tokens ∧ v = onTop base t)
    (fun _ _ => exists e t tokens, m s = .error e t tokens)
    (fun _ => exists c, m s = .fault c) (by
      unfold wp
      cases hm : m s with
      | ok b t tokens =>
          intro _
          exact ⟨t, tokens, rfl, rfl⟩
      | error e t tokens => exact ⟨e, t, tokens, rfl⟩
      | fault c => exact ⟨c, rfl⟩)
  unfold wp at hwp
  rw [hrun] at hwp
  exact hwp

end Retains

/-!
## The top of the stacks
-/

theorem Grounded.operators_ne_nil (h : Grounded closable level s) :
    s.operators ≠ [] := by
  rcases h.bottom with ⟨ops, hops⟩
  rw [hops]
  simp

theorem Grounded.head_onTop (h : Grounded closable level s) :
    (onTop base s).operators.head? = s.operators.head? := by
  rw [onTop_operators]
  cases hops : s.operators with
  | nil => exact absurd hops h.operators_ne_nil
  | cons op ops => rfl

theorem Grounded.peekOp_onTop (h : Grounded closable level s) :
    (onTop base s).peekOp 0 = s.peekOp 0 := by
  unfold peekOp
  rw [<- List.head?_eq_getElem?, <- List.head?_eq_getElem?]
  exact h.head_onTop

/-- The last operator of a rest is the brace too. -/
theorem bottom_tail {op : Operator} {ops rest : List Operator}
    (h : ops ++ [Operator.brace] = op :: rest)
    (hop : op ≠ Operator.brace) :
    exists ops', rest = ops' ++ [Operator.brace] := by
  cases ops with
  | nil =>
      simp only [List.nil_append, List.cons.injEq] at h
      exact absurd h.1.symm hop
  | cons top ops =>
      simp only [List.cons_append, List.cons.injEq] at h
      exact ⟨ops, h.2.symm⟩

theorem dropNew_onTop {ops : List Operator} (lower : List Operator)
    (h : exists ops', ops = ops' ++ [Operator.brace]) :
    dropNew (ops ++ lower) = dropNew ops ++ lower := by
  rcases h with ⟨ops', rfl⟩
  induction ops' with
  | nil => rfl
  | cons op ops' ih =>
      by_cases hop : op = Operator.new
      · subst hop
        simp only [List.cons_append, dropNew_new]
        exact ih
      · simp only [List.cons_append]
        rw [dropNew_cons _ hop, dropNew_cons _ hop]
        rfl

theorem dropNew_bottom {ops : List Operator}
    (h : exists ops', ops = ops' ++ [Operator.brace]) :
    exists ops', dropNew ops = ops' ++ [Operator.brace] := by
  rcases h with ⟨ops', rfl⟩
  induction ops' with
  | nil => exact ⟨[], rfl⟩
  | cons op ops' ih =>
      by_cases hop : op = Operator.new
      · subst hop
        exact ih
      · rw [List.cons_append, dropNew_cons _ hop]
        exact ⟨op :: ops', rfl⟩

theorem args_onTop (h : Grounded closable level s) :
    (onTop base s).args = s.args := by
  rcases args_split s with ⟨rest, hops, hrest⟩
  have hops' : (onTop base s).operators =
      List.replicate s.args Operator.number ++ (rest ++ base.operators) := by
    rw [onTop_operators]
    conv_lhs => rw [hops]
    rw [List.append_assoc]
  apply args_append hops'
  cases rest with
  | nil =>
      exfalso
      have hmem : Operator.brace ∈ s.operators := by
        rcases h.bottom with ⟨ops, hbottom⟩
        rw [hbottom]
        simp
      rw [hops, List.append_nil] at hmem
      have := (List.mem_replicate.mp hmem).2
      cases this
  | cons op rest => simpa using hrest

/-- A number on the top is one of the upper numbers. -/
theorem Grounded.numbers_ne_nil (h : Grounded closable level s)
    {rest : List Operator} (hops : s.operators = Operator.number :: rest) :
    s.numbers ≠ [] := by
  intro hnil
  have hcount := h.numbers
  rw [hops, hnil, List.count_cons_self] at hcount
  simp at hcount

/-- The state without the number on the top. -/
theorem Grounded.popNumber (h : Grounded closable level s)
    {rest : List Operator} (hops : s.operators = Operator.number :: rest) :
    Grounded closable level
      { s with operators := rest, numbers := s.numbers.tail } := by
  rcases h.bottom with ⟨ops, hbottom⟩
  have hcount := h.numbers
  have hbraces := h.braces
  rw [hops] at hcount hbraces hbottom
  rw [List.count_cons_self] at hcount
  rw [List.count_cons_of_ne (by simp)] at hbraces
  constructor
  · exact bottom_tail hbottom.symm (by simp)
  · show rest.count Operator.number = s.numbers.tail.length
    rw [List.length_tail]
    omega
  · exact hbraces
  · exact h.braceLevel

theorem tail_append_of_ne_nil {α : Type} {l : List α} (lower : List α)
    (h : l ≠ []) : (l ++ lower).tail = l.tail ++ lower := by
  cases l with
  | nil => exact absurd rfl h
  | cons a l => rfl

theorem headD_append_of_ne_nil {α : Type} {l : List α} (lower : List α)
    (a : α) (h : l ≠ []) : (l ++ lower).headD a = l.headD a := by
  cases l with
  | nil => exact absurd rfl h
  | cons b l => rfl

/-!
## Pushing and popping
-/

theorem Grounded.pushed (h : Grounded closable level s) (n : TecoInt) :
    Grounded closable level (s.pushed n) := by
  constructor
  · rcases dropNew_bottom h.bottom with ⟨ops, hops⟩
    exact ⟨Operator.number :: ops, by rw [pushed_operators, hops]; rfl⟩
  · rw [pushed_operators, pushed_numbers_length, List.count_cons_self,
      count_dropNew (by simp), h.numbers]
  · rw [pushed_operators, List.count_cons_of_ne (by simp),
      count_dropNew (by simp)]
    exact h.braces
  · exact h.braceLevel

theorem onTop_pushed (h : Grounded closable level s) (n : TecoInt) :
    (onTop base s).pushed n = onTop base (s.pushed n) := by
  unfold Expressions.pushed
  rw [onTop_operators, dropNew_onTop base.operators h.bottom]
  rfl

theorem retains_pushInt (h : Grounded closable level s) (n : TecoInt) :
    Retains base (Grounded closable level) (pushInt n) (pushInt n) s := by
  intro post fail bad hwp
  rw [wp_pushInt] at hwp ⊢
  rw [onTop_pushed h]
  exact hwp (h.pushed n)

/-- A marker which is neither a number nor a brace. -/
theorem retains_pushOp (h : Grounded closable level s) {op : Operator}
    (hnumber : op ≠ Operator.number) (hbrace : op ≠ Operator.brace) :
    Retains base (Grounded closable level) (pushOp op) (pushOp op) s := by
  intro post fail bad hwp
  rw [wp_pushOp] at hwp ⊢
  apply hwp
  constructor
  · rcases h.bottom with ⟨ops, hops⟩
    exact ⟨op :: ops, by rw [hops]; rfl⟩
  · show (op :: s.operators).count Operator.number = s.numbers.length
    rw [List.count_cons_of_ne hnumber]
    exact h.numbers
  · show closable < (op :: s.operators).count Operator.brace
    rw [List.count_cons_of_ne hbrace]
    exact h.braces
  · exact h.braceLevel

theorem retains_setNumSign (h : Grounded closable level s) (sign : Int) :
    Retains base (Grounded closable level) (setNumSign sign)
      (setNumSign sign) s := by
  intro post fail bad hwp
  rw [wp_setNumSign] at hwp ⊢
  exact hwp ⟨h.bottom, h.numbers, h.braces, h.braceLevel⟩

theorem retains_popNum (h : Grounded closable level s)
    {rest : List Operator} (hops : s.operators = Operator.number :: rest) :
    Retains base
      (fun t => Grounded closable level t ∧ t.operators = rest)
      (popNum 0) (popNum 0) s := by
  intro post fail bad hwp
  have hne := h.numbers_ne_nil hops
  have hops' : (onTop base s).operators =
      Operator.number :: (rest ++ base.operators) := by
    rw [onTop_operators, hops]
    rfl
  rw [wp_popNum hops] at hwp
  rw [wp_popNum hops', onTop_numbers, headD_append_of_ne_nil _ _ hne,
    tail_append_of_ne_nil _ hne]
  exact hwp ⟨h.popNumber hops, rfl⟩

/-!
## Operators
-/

/-- What `teco_expressions_calc()` reads is above the last brace if there is an
operator to be resolved. -/
theorem calc_above {ops vals rest : List Operator} {op : BinaryOp}
    (hbottom : exists ops', ops = ops' ++ [Operator.brace])
    (hops : ops = vals ++ Operator.real op :: rest) (hvals : vals ≠ []) :
    exists x y lower, ops = x :: y :: lower ∧
      exists ops', lower = ops' ++ [Operator.brace] := by
  rcases hbottom with ⟨ops', hops'⟩
  have hlast : exists ops'', Operator.real op :: rest =
      Operator.real op :: (ops'' ++ [Operator.brace]) := by
    rcases List.append_eq_append_iff.mp (hops.symm.trans hops') with
      ⟨l, hl, hr⟩ | ⟨l, hl, hr⟩
    · rcases bottom_tail hr.symm (by simp) with ⟨ops'', h⟩
      exact ⟨ops'', by rw [h]⟩
    · exfalso
      cases l with
      | nil => simp at hr
      | cons x l =>
          have hlen := congrArg List.length hr
          simp at hlen
  rcases hlast with ⟨ops'', hlast⟩
  rw [hlast] at hops
  cases vals with
  | nil => exact absurd rfl hvals
  | cons v vals =>
      cases vals with
      | nil => exact ⟨v, _, _, hops, ops'', rfl⟩
      | cons w vals =>
          refine ⟨v, w, _, hops, vals ++ Operator.real op :: ops'', ?_⟩
          simp

/-- The left operand is one of the upper numbers. -/
theorem Grounded.tail_ne_nil (h : Grounded closable level s)
    {top : BinaryOp} {below : List Operator}
    (hops : s.operators =
      Operator.number :: Operator.real top :: Operator.number :: below) :
    s.numbers.tail ≠ [] := by
  intro hnil
  have hlen := congrArg List.length hnil
  have hcount := h.numbers
  rw [hops, List.count_cons_self, List.count_cons_of_ne (by simp),
    List.count_cons_self] at hcount
  rw [List.length_tail, List.length_nil] at hlen
  omega

theorem Grounded.dropCalc (h : Grounded closable level s)
    {top : BinaryOp} {below : List Operator}
    (hops : s.operators =
      Operator.number :: Operator.real top :: Operator.number :: below) :
    Grounded closable level (s.dropCalc below) := by
  rcases h.bottom with ⟨ops, hbottom⟩
  have hcount := h.numbers
  have hbraces := h.braces
  rw [hops, List.count_cons_self, List.count_cons_of_ne (by simp),
    List.count_cons_self] at hcount
  rw [hops, List.count_cons_of_ne (by simp),
    List.count_cons_of_ne (by simp),
    List.count_cons_of_ne (by simp)] at hbraces
  rw [hops] at hbottom
  constructor
  · rcases bottom_tail hbottom.symm (by simp) with ⟨ops', h'⟩
    rcases bottom_tail h'.symm (by simp) with ⟨ops'', h''⟩
    exact bottom_tail h''.symm (by simp)
  · show below.count Operator.number = s.numbers.tail.tail.length
    rw [List.length_tail, List.length_tail]
    omega
  · exact hbraces
  · exact h.braceLevel

theorem onTop_dropCalc (h : Grounded closable level s)
    {top : BinaryOp} {below : List Operator}
    (hops : s.operators =
      Operator.number :: Operator.real top :: Operator.number :: below) :
    (onTop base s).dropCalc (below ++ base.operators) =
      onTop base (s.dropCalc below) := by
  unfold Expressions.dropCalc onTop
  dsimp only
  rw [tail_append_of_ne_nil _ (h.numbers_ne_nil hops),
    tail_append_of_ne_nil _ (h.tail_ne_nil hops)]

/-- Two operands with an operator in between. -/
theorem retains_calcTop_real (h : Grounded closable level s)
    {top : BinaryOp} {below : List Operator}
    (hops : s.operators =
      Operator.number :: Operator.real top :: Operator.number :: below) :
    Retains base
      (fun t => Grounded closable level t ∧
        t.operators.length < s.operators.length)
      calcTop calcTop s := by
  intro post fail bad hwp
  have hops' : (onTop base s).operators = Operator.number ::
      Operator.real top :: Operator.number :: (below ++ base.operators) := by
    rw [onTop_operators, hops]
    rfl
  have hne := h.numbers_ne_nil hops
  have hright : (onTop base s).numbers.headD 0 = s.numbers.headD 0 :=
    headD_append_of_ne_nil _ _ hne
  have hleft : (onTop base s).numbers.tail.headD 0 =
      s.numbers.tail.headD 0 := by
    rw [onTop_numbers, tail_append_of_ne_nil _ hne,
      headD_append_of_ne_nil _ _ (h.tail_ne_nil hops)]
  have hground := h.dropCalc hops
  rw [wp_calcTop_real hops] at hwp
  rw [wp_calcTop_real hops', hright, hleft, onTop_dropCalc h hops]
  cases hresult : applyOp top (s.numbers.tail.headD 0)
      (s.numbers.headD 0) with
  | ok v =>
      rw [hresult] at hwp
      dsimp only at hwp ⊢
      rw [onTop_pushed hground]
      apply hwp
      constructor
      · exact hground.pushed v
      · rw [pushed_operators, dropCalc_operators, hops]
        have hle := dropNew_length_le below
        simp only [List.length_cons]
        omega
  | error stop =>
      rw [hresult] at hwp
      cases stop with
      | error e => exact hwp
      | fault c => exact hwp

theorem retains_calcTop (h : Grounded closable level s)
    {vals rest : List Operator} {op : BinaryOp}
    (hops : s.operators = vals ++ Operator.real op :: rest)
    (hvals : vals ≠ []) :
    Retains base
      (fun t => Grounded closable level t ∧
        t.operators.length < s.operators.length)
      calcTop calcTop s := by
  rcases calc_above h.bottom hops hvals with ⟨x, y, lower, hxy, hlower⟩
  have hhead : (lower ++ base.operators).head? = lower.head? := by
    cases lower with
    | nil =>
        rcases hlower with ⟨ops', hnil⟩
        simp at hnil
    | cons z lower => rfl
  have hxy' : (onTop base s).operators =
      x :: y :: (lower ++ base.operators) := by
    rw [onTop_operators, hxy]
    rfl
  by_cases hx : x = Operator.number
  · subst hx
    have hne := h.numbers_ne_nil hxy
    by_cases hz : lower.head? = some Operator.number
    · rcases List.head?_eq_some_iff.mp hz with ⟨below, hbelow⟩
      subst hbelow
      have hnot : (forall bop, y ≠ Operator.real bop) -> Retains base
          (fun t => Grounded closable level t ∧
            t.operators.length < s.operators.length)
          calcTop calcTop s := by
        intro hy post fail bad hwp
        rw [wp_calcTop_notReached hxy hy] at hwp
        rw [wp_calcTop_notReached hxy' hy]
        exact hwp
      cases y with
      | real top => exact retains_calcTop_real h hxy
      | new => exact hnot (by simp)
      | brace => exact hnot (by simp)
      | number => exact hnot (by simp)
    · intro post fail bad hwp
      rw [wp_calcTop_noLeft hxy hz] at hwp
      rw [wp_calcTop_noLeft hxy' (by rw [hhead]; exact hz)]
      rw [onTop_numbers, tail_append_of_ne_nil _ hne]
      exact hwp
  · intro post fail bad hwp
    have hpeek : s.peekOp 0 ≠ some Operator.number := by
      simpa [peekOp, hxy] using hx
    rw [wp_calcTop_noRight hpeek] at hwp
    rw [wp_calcTop_noRight (by rw [h.peekOp_onTop]; exact hpeek)]
    exact hwp

theorem resolved_append {ops lower : List Operator} (h : Resolved ops)
    (hbottom : exists ops', ops = ops' ++ [Operator.brace]) :
    Resolved (ops ++ lower) := by
  cases h with
  | empty hvals =>
      exfalso
      rcases hbottom with ⟨ops', rfl⟩
      have := hvals Operator.brace (by simp)
      cases this
  | brace hvals =>
      rw [List.append_assoc]
      exact Resolved.brace hvals
  | dangling => exact Resolved.dangling

/-- Evaluation ends with the same operators resolved. -/
theorem retains_eval (h : Grounded closable level s) :
    Retains base
      (fun t => Grounded closable level t ∧ Resolved t.operators)
      (eval false) (eval false) s := by
  generalize hlen : s.operators.length = len
  induction len using Nat.strong_induction_on generalizing s with
  | _ len ih =>
      intro post fail bad hwp
      rcases resolved_or_pending s.operators with hres | hpending
      · rw [wp_eval_resolved hres] at hwp
        rw [wp_eval_resolved (resolved_append hres h.bottom)]
        exact hwp ⟨h, hres⟩
      · rcases hpending with ⟨vals, op, rest, hops, hvals, hne⟩
        have hpending : Pending s.operators :=
          ⟨vals, op, rest, hops, hvals, hne⟩
        have hpending' : Pending (onTop base s).operators := by
          refine ⟨vals, op, rest ++ base.operators, ?_, hvals, hne⟩
          rw [onTop_operators, hops, List.append_assoc]
          rfl
        rw [wp_eval_pending hpending] at hwp
        rw [wp_eval_pending hpending']
        apply retains_calcTop h hops hne
        apply wp_call hwp
        intro _ t ht hinv
        rcases hinv with ⟨hground, hshorter⟩
        rw [hlen] at hshorter
        exact ih _ hshorter hground rfl post fail bad ht

theorem yields_append {p : Nat} {ops lower : List Operator}
    (h : Yields p ops)
    (hbottom : exists ops', ops = ops' ++ [Operator.brace]) :
    Yields p (ops ++ lower) := by
  rcases h with hall | ⟨vals, rest, hops, hvals⟩ |
    ⟨vals, top, rest, hops, hvals, hlt⟩
  · exfalso
    rcases hbottom with ⟨ops', rfl⟩
    have := hall Operator.brace (by simp)
    cases this
  · refine Or.inr (Or.inl ⟨vals, rest ++ lower, ?_, hvals⟩)
    rw [hops, List.append_assoc]
    rfl
  · refine Or.inr (Or.inr ⟨vals, top, rest ++ lower, ?_, hvals, hlt⟩)
    rw [hops, List.append_assoc]
    rfl

theorem retains_pushCalc (h : Grounded closable level s) (op : BinaryOp) :
    Retains base (Grounded closable level) (pushCalc op) (pushCalc op) s := by
  generalize hlen : s.operators.length = len
  induction len using Nat.strong_induction_on generalizing s with
  | _ len ih =>
      intro post fail bad hwp
      rcases yields_or_outranks (Operator.real op).precedence s.operators with
        hyields | hout
      · rw [wp_pushCalc_yields hyields] at hwp
        rw [wp_pushCalc_yields (yields_append hyields h.bottom)]
        have hpush : Retains base (Grounded closable level)
            (pushOp (Operator.real op)) (pushOp (Operator.real op)) s :=
          retains_pushOp h (by simp) (by simp)
        have hpushed := hpush post fail bad
        rw [wp_pushOp, wp_pushOp] at hpushed
        exact hpushed hwp
      · rcases hout with ⟨vals, top, rest, hops, hvals, hge⟩
        have hout : Outranks (Operator.real op).precedence s.operators :=
          ⟨vals, top, rest, hops, hvals, hge⟩
        have hout' : Outranks (Operator.real op).precedence
            (onTop base s).operators := by
          refine ⟨vals, top, rest ++ base.operators, ?_, hvals, hge⟩
          rw [onTop_operators, hops, List.append_assoc]
          rfl
        rw [wp_pushCalc_outranks hout] at hwp
        rw [wp_pushCalc_outranks hout']
        cases vals with
        | nil =>
            -- an operator on the top has no right operand
            have hhead : s.operators.head? = some (Operator.real top) := by
              rw [hops]
              rfl
            have hpeek : s.peekOp 0 ≠ some Operator.number := by
              rw [peekOp, <- List.head?_eq_getElem?, hhead]
              simp
            rw [wp_calcTop_noRight hpeek] at hwp
            rw [wp_calcTop_noRight (by rw [h.peekOp_onTop]; exact hpeek)]
            exact hwp
        | cons v vals =>
            apply retains_calcTop h hops (List.cons_ne_nil _ _)
            apply wp_call hwp
            intro _ t ht hinv
            rcases hinv with ⟨hground, hshorter⟩
            rw [hlen] at hshorter
            exact ih _ hshorter hground rfl post fail bad ht

/-!
## Arguments
-/

theorem args_pos_cases (h : s.args > 0) :
    exists rest, s.operators = Operator.number :: rest := by
  rcases args_split s with ⟨rest, hops, _⟩
  rcases Nat.exists_eq_succ_of_ne_zero (Nat.ne_of_gt h) with ⟨k, hk⟩
  rw [hk, List.replicate_succ, List.cons_append] at hops
  exact ⟨_, hops⟩

/-- Pop an argument, if there is one. -/
theorem retains_popArg (h : Grounded closable level s) (imply : TecoInt) :
    Retains base (Grounded closable level)
      (do
        let s <- get
        if s.args > 0 then popNum 0 else Pure.pure imply)
      (do
        let s <- get
        if s.args > 0 then popNum 0 else Pure.pure imply) s := by
  apply Retains.read
  rw [args_onTop h]
  apply Retains.ite
  · intro hargs
    rcases args_pos_cases hargs with ⟨rest, hops⟩
    apply (retains_popNum h hops).weaken
    intro t ht
    exact ht.1
  · intro _
    exact Retains.pure imply h

theorem retains_popNumCalc (h : Grounded closable level s)
    (imply : TecoInt) :
    Retains base (Grounded closable level) (popNumCalc imply)
      (popNumCalc imply) s := by
  apply Retains.bind (retains_eval h)
  intro _ t ht
  apply Retains.read
  dsimp only [onTop_numSign]
  apply Retains.ite
  · intro _
    apply Retains.bind (retains_setNumSign ht.1 1)
    intro _ u hu
    exact retains_popArg hu imply
  · intro _
    exact retains_popArg ht.1 imply

theorem retains_addDigit (h : Grounded closable level s) (radix : TecoInt)
    (digit : Nat) :
    Retains base (Grounded closable level) (addDigit radix digit)
      (addDigit radix digit) s := by
  apply Retains.read
  rw [args_onTop h]
  apply Retains.ite
  · intro hargs
    rcases args_pos_cases hargs with ⟨rest, hops⟩
    apply Retains.bind (retains_popNum h hops)
    intro n t ht
    exact retains_pushInt ht.1 _
  · intro _
    rw [pure_bind]
    exact retains_pushInt h _

theorem retains_discardArgsLoop (k : Nat) (h : Grounded closable level s) :
    Retains base (Grounded closable level) (discardArgsLoop k)
      (discardArgsLoop k) s := by
  induction k generalizing s with
  | zero => exact Retains.pure () h
  | succ k ih =>
      apply Retains.bind (retains_popNumCalc h 0)
      intro _ t ht
      exact ih ht

theorem retains_discardArgs (h : Grounded closable level s) :
    Retains base (Grounded closable level) discardArgs discardArgs s := by
  apply Retains.bind (retains_eval h)
  intro _ t ht
  apply Retains.read
  rw [args_onTop ht.1]
  exact retains_discardArgsLoop _ ht.1

theorem retains_popArgs {k : Nat} (h : Grounded closable level s)
    (hk : exists rest,
      s.operators = List.replicate k Operator.number ++ rest) :
    Retains base (Grounded closable level) (popArgs k) (popArgs k) s := by
  induction k generalizing s with
  | zero => exact Retains.pure [] h
  | succ k ih =>
      rcases hk with ⟨rest, hops⟩
      rw [List.replicate_succ, List.cons_append] at hops
      apply Retains.bind (retains_popNum h hops)
      intro n t ht
      apply Retains.bind (ih ht.1 ⟨rest, ht.2⟩)
      intro ns u hu
      exact Retains.pure _ hu

theorem retains_pushArgs (ns : List TecoInt)
    (h : Grounded closable level s) :
    Retains base (Grounded closable level) (pushArgs ns) (pushArgs ns) s := by
  induction ns generalizing s with
  | nil => exact Retains.pure () h
  | cons n ns ih =>
      apply Retains.bind (retains_pushInt h n)
      intro _ t ht
      exact ih ht

/-!
## Braces
-/

/-- The brace that is removed is not the last one. -/
theorem Grounded.braceRemoved (base : Expressions)
    (h : Grounded (closable + 1) level s) :
    Grounded closable level s.braceRemoved ∧
      (onTop base s).braceRemoved = onTop base s.braceRemoved := by
  have hbraces := h.braces
  rcases split_arguments s.operators with
    hall | ⟨vals, op, rest, hops, hvals, hop⟩
  · exfalso
    rcases h.bottom with ⟨ops, hbottom⟩
    have := hall Operator.brace (by rw [hbottom]; simp)
    cases this
  · have hops' : (onTop base s).operators =
        vals ++ op :: (rest ++ base.operators) := by
      rw [onTop_operators, hops, List.append_assoc]
      rfl
    by_cases hbrace : op = Operator.brace
    · subst hbrace
      rw [braceRemoved_eq hops hvals, braceRemoved_eq hops' hvals]
      have hcount := h.numbers
      rw [hops, List.count_append,
        List.count_cons_of_ne (by simp)] at hcount
      rw [hops, List.count_append, List.count_cons_self] at hbraces
      constructor
      · constructor
        · rcases h.bottom with ⟨ops, hbottom⟩
          rw [hops] at hbottom
          -- another brace is below the first one
          have hmem : Operator.brace ∈ rest := by
            have hzero : vals.count Operator.brace = 0 := by
              apply List.count_eq_zero.mpr
              intro hmem
              have := hvals _ hmem
              cases this
            exact List.count_pos_iff.mp (by omega)
          rcases List.append_eq_append_iff.mp hbottom with
            ⟨l, hl, hr⟩ | ⟨l, hl, hr⟩
          · cases l with
            | nil =>
                exfalso
                simp only [List.nil_append, List.cons.injEq] at hr
                rw [hr.2] at hmem
                cases hmem
            | cons x l =>
                simp only [List.cons_append, List.cons.injEq] at hr
                exact ⟨vals ++ l, by rw [hr.2, List.append_assoc]⟩
          · exfalso
            cases l with
            | nil =>
                simp only [List.nil_append, List.cons.injEq] at hr
                rw [<- hr.2] at hmem
                cases hmem
            | cons x l =>
                have hlen := congrArg List.length hr
                simp at hlen
        · show (vals ++ rest).count Operator.number = s.numbers.length
          rw [List.count_append]
          exact hcount
        · show closable < (vals ++ rest).count Operator.brace
          rw [List.count_append]
          omega
        · exact h.braceLevel
      · unfold onTop
        dsimp only
        rw [List.append_assoc]
    · have hsame : forall (t : Expressions) (lower : List Operator),
          t.operators = vals ++ op :: lower -> t.braceRemoved = t := by
        intro t lower ht
        unfold Expressions.braceRemoved
        rw [firstOp_eq_some ht hvals hop]
        dsimp only
        rw [peekOp_append ht, if_neg]
        intro heq
        exact hbrace (Option.some.inj heq)
      rw [hsame s rest hops, hsame _ _ hops']
      exact ⟨⟨h.bottom, h.numbers, by omega, h.braceLevel⟩, rfl⟩

theorem retains_evalTrue (h : Grounded (closable + 1) level s) :
    Retains base (Grounded closable level) (eval true) (eval true) s := by
  intro post fail bad hwp
  rw [wp_eval_true] at hwp ⊢
  apply retains_eval h
  apply wp_call hwp
  intro _ t ht hinv
  have hremoved := hinv.1.braceRemoved base
  rw [hremoved.2]
  exact ht hremoved.1

theorem Grounded.popNew (h : Grounded closable level s) :
    Grounded closable level { s with operators := dropNew s.operators } := by
  constructor
  · exact dropNew_bottom h.bottom
  · show (dropNew s.operators).count Operator.number = s.numbers.length
    rw [count_dropNew (by simp)]
    exact h.numbers
  · show closable < (dropNew s.operators).count Operator.brace
    rw [count_dropNew (by simp)]
    exact h.braces
  · exact h.braceLevel

theorem retains_braceOpen (h : Grounded closable level s) :
    Retains base (Grounded (closable + 1) (level + 1)) braceOpen
      braceOpen s := by
  intro post fail bad hwp
  simp only [braceOpen, wp_bind, wp_popNew, wp_pushOp, wp_undoBraceLevel,
    wp_get, wp_setBraceLevel] at hwp ⊢
  rw [onTop_operators, dropNew_onTop _ h.bottom]
  have hnew := h.popNew
  apply hwp
  constructor
  · rcases hnew.bottom with ⟨ops, hops⟩
    exact ⟨Operator.brace :: ops, congrArg (List.cons Operator.brace) hops⟩
  · show (Operator.brace :: dropNew s.operators).count Operator.number = _
    rw [List.count_cons_of_ne (by simp)]
    exact hnew.numbers
  · show closable + 1 <
      (Operator.brace :: dropNew s.operators).count Operator.brace
    rw [List.count_cons_self]
    exact Nat.succ_lt_succ hnew.braces
  · show s.braceLevel + 1 = level + 1
    rw [h.braceLevel]

theorem retains_setBraceLevel (h : Grounded closable level s)
    (braces : Nat) :
    Retains base (Grounded closable braces) (setBraceLevel braces)
      (setBraceLevel braces) s := by
  intro post fail bad hwp
  rw [wp_setBraceLevel] at hwp ⊢
  exact hwp ⟨h.bottom, h.numbers, h.braces, rfl⟩

theorem retains_undoBraceLevel (h : Grounded closable level s) :
    Retains base (Grounded closable level) undoBraceLevel
      undoBraceLevel s := by
  intro post fail bad hwp
  rw [wp_undoBraceLevel] at hwp ⊢
  exact hwp h

theorem retains_braceClose (h : Grounded (closable + 1) (level + 1) s) :
    Retains base (Grounded closable level) braceClose braceClose s := by
  apply Retains.read
  rw [onTop_braceLevel, h.braceLevel]
  apply Retains.ite
  · intro hzero
    omega
  · intro _
    apply Retains.bind (retains_undoBraceLevel h)
    intro _ t ht
    apply Retains.bind (retains_setBraceLevel ht _)
    intro _ u hu
    exact retains_evalTrue hu

theorem retains_braceReturnLoop (levels : Nat)
    (h : Grounded (closable + levels) (level + levels) s) :
    Retains base (Grounded closable level) (braceReturnLoop levels)
      (braceReturnLoop levels) s := by
  induction levels generalizing s with
  | zero => exact Retains.pure () h
  | succ levels ih =>
      apply Retains.bind (retains_discardArgs h)
      intro _ t ht
      apply Retains.bind (retains_evalTrue ht)
      intro _ u hu
      apply Retains.read
      rw [onTop_braceLevel, hu.braceLevel]
      apply Retains.bind (retains_setBraceLevel hu _)
      intro _ v hv
      exact ih hv

theorem retains_braceReturn {keepBraces args : Nat}
    (h : Grounded closable level s)
    (hargs : exists rest,
      s.operators = List.replicate args Operator.number ++ rest)
    (hkeep : level - keepBraces <= closable) :
    Retains base
      (Grounded (closable - (level - keepBraces))
        (level - (level - keepBraces)))
      (braceReturn keepBraces args) (braceReturn keepBraces args) s := by
  apply Retains.bind (retains_popArgs h hargs)
  intro ns t ht
  apply Retains.bind (retains_undoBraceLevel ht)
  intro _ u hu
  apply Retains.read
  rw [onTop_braceLevel, hu.braceLevel]
  have hlevels : Grounded
      (closable - (level - keepBraces) + (level - keepBraces))
      (level - (level - keepBraces) + (level - keepBraces)) u := by
    rw [Nat.sub_add_cancel hkeep, Nat.sub_add_cancel (Nat.sub_le _ _)]
    exact hu
  apply Retains.bind (retains_braceReturnLoop _ hlevels)
  intro _ v hv
  exact retains_pushArgs ns hv

/-!
## Runs of calls
-/

/-- The call does not close a brace of the levels up to `floor`. -/
def Call.StaysAbove (floor : Nat) : Call -> Expressions -> Prop
  | .braceClose, s => floor < s.braceLevel
  | .braceReturn keepBraces _, _ => floor <= keepBraces
  | .clear, _ => False
  | _, _ => True

/-- Stacks on the top of the brace which has opened the level `floor`. -/
structure Above (floor : Nat) (s : Expressions) : Prop where
  le_braceLevel : floor <= s.braceLevel
  grounded : Grounded (s.braceLevel - floor) s.braceLevel s

theorem Above.of_grounded {floor level : Nat} (hle : floor <= level)
    (h : Grounded (level - floor) level s) : Above floor s := by
  constructor
  · rw [h.braceLevel]
    exact hle
  · rw [h.braceLevel]
    exact h

theorem Call.retains {floor : Nat} (c : Call) (h : Above floor s)
    (hstay : c.StaysAbove floor s) :
    Retains base (Above floor) c.run c.run s := by
  have hg := h.grounded
  have hle := h.le_braceLevel
  have hsame : forall t, Grounded (s.braceLevel - floor) s.braceLevel t ->
      Above floor t := fun t ht => Above.of_grounded hle ht
  cases c with
  | pushInt n => exact (retains_pushInt hg n).weaken hsame
  | pushNew => exact (retains_pushOp hg (by simp) (by simp)).weaken hsame
  | pushCalc op => exact (retains_pushCalc hg op).weaken hsame
  | addDigit radix digit =>
      exact (retains_addDigit hg radix digit).weaken hsame
  | setNumSign sign => exact (retains_setNumSign hg sign).weaken hsame
  | eval =>
      apply (retains_eval hg).weaken
      intro t ht
      exact hsame t ht.1
  | popArgs fetch =>
      apply Retains.read
      rw [args_onTop hg]
      apply Retains.bind (retains_popArgs hg ⟨_, fetch_split fetch s⟩)
      intro _ t ht
      exact Retains.pure () (hsame t ht)
  | popNumCalc imply =>
      apply Retains.bind (retains_popNumCalc hg imply)
      intro _ t ht
      exact Retains.pure () (hsame t ht)
  | discardArgs => exact (retains_discardArgs hg).weaken hsame
  | braceOpen =>
      apply (retains_braceOpen hg).weaken
      intro t ht
      apply Above.of_grounded (Nat.le_succ_of_le hle)
      rw [Nat.succ_sub hle]
      exact ht
  | braceClose =>
      have hlt : floor < s.braceLevel := hstay
      have hclose : Grounded (s.braceLevel - 1 - floor + 1)
          (s.braceLevel - 1 + 1) s := by
        have hone : s.braceLevel - 1 - floor + 1 = s.braceLevel - floor := by
          omega
        rw [hone, Nat.sub_add_cancel (by omega)]
        exact hg
      apply (retains_braceClose hclose).weaken
      intro t ht
      exact Above.of_grounded (by omega) ht
  | braceReturn keepBraces fetch =>
      have hkeep : floor <= keepBraces := hstay
      apply Retains.read
      rw [args_onTop hg]
      apply (retains_braceReturn hg ⟨_, fetch_split fetch s⟩
        (by omega)).weaken
      intro t ht
      have hlevels : s.braceLevel - floor - (s.braceLevel - keepBraces) =
          s.braceLevel - (s.braceLevel - keepBraces) - floor := by
        omega
      rw [hlevels] at ht
      exact Above.of_grounded (by omega) ht
  | clear => exact absurd hstay id

/-- Calls which all return success, none of which closes a brace of the levels
up to `floor`. -/
def RunsAbove (floor : Nat) : List Call -> Expressions -> Expressions -> Prop
  | [], s, t => t = s
  | c :: rest, s, t => c.StaysAbove floor s ∧
      exists u tokens, c.run s = .ok () u tokens ∧ RunsAbove floor rest u t

theorem Call.staysAbove_onTop {floor : Nat} (c : Call) :
    c.StaysAbove floor (onTop base s) <-> c.StaysAbove floor s := by
  cases c <;> exact Iff.rfl

/-- Such calls keep what is below the brace, and they would do the same on the
top of anything else. -/
theorem runsAbove_onTop {floor : Nat} (calls : List Call)
    {v : Expressions} (h : Above floor s)
    (hrun : RunsAbove floor calls (onTop base s) v) :
    exists t, Above floor t ∧ v = onTop base t ∧
      forall other, RunsAbove floor calls (onTop other s) (onTop other t) := by
  induction calls generalizing s with
  | nil => exact ⟨s, h, hrun, fun _ => rfl⟩
  | cons c rest ih =>
      rcases hrun with ⟨hstay, u, tokens, hcall, hrest⟩
      rw [c.staysAbove_onTop] at hstay
      rcases (c.retains h hstay).ok_inv hcall with
        ⟨t, tokens', hown, hu⟩
      subst hu
      have hlift : forall other, Above floor t ∧
          exists tokens, c.run (onTop other s) = .ok () (onTop other t)
            tokens :=
        fun other => (c.retains h hstay).ok hown
      rcases ih (hlift base).1 hrest with ⟨t', habove', hv, hother⟩
      refine ⟨t', habove', hv, ?_⟩
      intro other
      rcases (hlift other).2 with ⟨tokens'', hcall'⟩
      exact ⟨c.staysAbove_onTop.mpr hstay, _, tokens'', hcall',
        hother other⟩

/-!
## Discarding everything above the brace
-/

/-- No comma waits for its second argument. -/
def NoComma (s : Expressions) : Prop := Operator.new ∉ s.operators

theorem NoComma.calcTop (h : NoComma s) :
    wp calcTop (fun _ t => NoComma t) (fun _ _ => True) (fun _ => True) s := by
  rcases top_cases s.operators with
    hops | hops | ⟨op, rest, hops, hleft⟩ | ⟨op, rest, hops, hop⟩ |
    ⟨bop, rest, hops⟩
  · rw [wp_calcTop_noRight
      (by simpa [peekOp, List.head?_eq_getElem?] using hops)]
    trivial
  · rw [wp_calcTop_single hops]
    trivial
  · rw [wp_calcTop_noLeft hops hleft]
    trivial
  · rw [wp_calcTop_notReached hops hop]
    trivial
  · rw [wp_calcTop_real hops]
    split
    · intro hmem
      rw [pushed_operators, dropCalc_operators] at hmem
      have hrest : Operator.new ∈ rest := by
        rcases List.mem_cons.mp hmem with hmem | hmem
        · cases hmem
        · exact (List.dropWhile_sublist _).mem hmem
      apply h
      rw [hops]
      simp [hrest]
    · trivial
    · trivial

theorem NoComma.discardArgs (h : NoComma s) :
    wp Expressions.discardArgs (fun _ d => NoComma d) (fun _ _ => True)
      (fun _ => True) s := by
  apply wp_discardArgs
  apply wp_eval_of_invariant NoComma h
  · intro t ht _
    exact ht.calcTop
  · intro t ht hres
    constructor
    · exact hres
    · intro rest hops _ hmem
      apply ht
      rw [hops]
      exact List.mem_append_right _ hmem

/-- Everything above the brace is an argument in the end.  No operator is left
without its right operand, no comma and no other brace. -/
structure Settled (s : Expressions) : Prop where
  noComma : NoComma s
  noOperator : forall op, s.operators.head? ≠ some (Operator.real op)
  oneBrace : s.operators.count Operator.brace = 1

theorem belowBrace_bottom {ops : List Operator}
    (h : Operator.brace ∉ ops) :
    belowBrace (ops ++ [Operator.brace]) = [Operator.brace] := by
  induction ops with
  | nil => rfl
  | cons op ops ih =>
      have hop : op ≠ Operator.brace := by
        intro heq
        apply h
        rw [heq]
        exact List.mem_cons_self
      rw [List.cons_append, belowBrace_cons hop]
      apply ih
      intro hmem
      exact h (List.mem_cons_of_mem _ hmem)

/-- Then nothing but the brace is left when the arguments are discarded. -/
theorem Settled.discardArgs (hsettled : Settled s)
    (h : Grounded closable level s) :
    wp Expressions.discardArgs
      (fun _ d => d.operators = [Operator.brace] ∧ d.numbers = [] ∧
        d.braceLevel = level)
      (fun _ _ => True) (fun _ => True) s := by
  have hmarked : Marked 1 s := ⟨h.numbers, hsettled.oneBrace⟩
  apply wp_call_and hsettled.noComma.discardArgs
    (wp_call_and (discardArgs_marked hmarked) (discardArgs_discards s)
      (fun _ d hd hdiscards => And.intro hd hdiscards))
  intro _ d hnew hrest
  rcases hrest with ⟨hd, hdiscards⟩
  have hbelow : belowBrace s.operators = [Operator.brace] := by
    rcases h.bottom with ⟨ops, hops⟩
    have hcount := hsettled.oneBrace
    rw [hops, List.count_append, List.count_singleton_self] at hcount
    rw [hops]
    apply belowBrace_bottom
    apply List.count_eq_zero.mp
    omega
  have hops : d.operators = [Operator.brace] := by
    rcases resolved_noArgs_cases hdiscards.resolved hdiscards.noArgs with
      hnil | hcomma | ⟨rest, hbrace⟩ | ⟨op, rest, hreal⟩
    · have hcount := hd.braces
      rw [hnil] at hcount
      cases hcount
    · exfalso
      rcases List.head?_eq_some_iff.mp hcomma with ⟨rest, hrest⟩
      apply hnew
      rw [hrest]
      exact List.mem_cons_self
    · rw [<- hbelow, <- hdiscards.below, hbrace]
      rfl
    · exfalso
      have hhead : d.operators.head? = some (Operator.real op) := by
        rw [hreal]
        rfl
      have hsame := hdiscards.dangling op (Or.inr hhead)
      rw [hsame] at hhead
      exact hsettled.noOperator op hhead
  constructor
  · exact hops
  · constructor
    · have hcount := hd.numbers
      rw [hops] at hcount
      exact List.eq_nil_of_length_eq_zero hcount.symm
    · rw [hdiscards.braceLevel]
      exact h.braceLevel

theorem Settled.discardArgs_onTop (hsettled : Settled s)
    (h : Grounded closable level s) :
    wp Expressions.discardArgs
      (fun _ d => d.operators = Operator.brace :: base.operators ∧
        d.numbers = base.numbers ∧ d.braceLevel = level)
      (fun _ _ => True) (fun _ => True) (onTop base s) := by
  apply retains_discardArgs h
  apply wp_call (hsettled.discardArgs h)
  intro _ d hd _
  rcases hd with ⟨hops, hnums, hlevel⟩
  constructor
  · rw [onTop_operators, hops]
    rfl
  · constructor
    · rw [onTop_numbers, hnums]
      rfl
    · exact hlevel

end Expressions
end SciTECO
