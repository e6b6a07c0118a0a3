import SciTECO.Expressions.Calls

/-!
# The shape of the operator stack

What evaluating, discarding arguments and closing a brace level do to the
operator stack, whatever the numbers are.
-/

namespace SciTECO
namespace Expressions

open Undoable

/-- The operator stack from the innermost brace down. -/
def belowBrace (ops : List Operator) : List Operator :=
  ops.dropWhile (fun op => op != Operator.brace)

theorem belowBrace_cons {op : Operator} (hop : op ≠ Operator.brace)
    (ops : List Operator) : belowBrace (op :: ops) = belowBrace ops := by
  simp [belowBrace, hop]

theorem belowBrace_dropNew (ops : List Operator) :
    belowBrace (dropNew ops) = belowBrace ops := by
  induction ops with
  | nil => rfl
  | cons top ops ih =>
      by_cases htop : top = Operator.new
      · subst htop
        rw [dropNew_new, ih, belowBrace_cons (by simp)]
      · rw [dropNew_cons ops htop]

theorem belowBrace_append {vals : List Operator} (ops : List Operator)
    (hvals : forall v, v ∈ vals -> v.isArgument = true) :
    belowBrace (vals ++ ops) = belowBrace ops := by
  induction vals with
  | nil => rfl
  | cons v vals ih =>
      have hv : v ≠ Operator.brace := by
        rintro rfl
        simpa using hvals Operator.brace List.mem_cons_self
      rw [List.cons_append, belowBrace_cons hv]
      exact ih (fun w hw => hvals w (List.mem_cons_of_mem _ hw))

theorem isArgument_replicate (k : Nat) :
    forall v, v ∈ List.replicate k Operator.number -> v.isArgument = true := by
  intro v hv
  rw [(List.mem_replicate.mp hv).2]
  rfl

/-- The arguments that a command fetches are on the top. -/
theorem fetch_split (fetch : Fetch) (s : Expressions) :
    s.operators =
      List.replicate (fetch.count s.args) Operator.number ++
        s.operators.drop (fetch.count s.args) := by
  obtain ⟨rest, hops, _⟩ := args_split s
  have htake : s.operators.take (fetch.count s.args) =
      List.replicate (fetch.count s.args) Operator.number := by
    have hle := fetch.le_args s.args
    rw [hops, List.take_append_of_le_length (by simpa using hle)]
    simp [List.take_replicate, Nat.min_eq_left hle]
  rw [<- htake, List.take_append_drop]

/-!
## Evaluation
-/

/-- What evaluation keeps: everything from the innermost brace down.  If
anything was resolved, then there was a number on the top, and there is one
now. -/
structure Evaluates (s t : Expressions) : Prop where
  braceLevel : t.braceLevel = s.braceLevel
  below : belowBrace t.operators = belowBrace s.operators
  top : t = s ∨ s.operators.head? = some Operator.number ∧
    t.operators.head? = some Operator.number

theorem Evaluates.refl (s : Expressions) : Evaluates s s :=
  ⟨rfl, rfl, Or.inl rfl⟩

theorem Evaluates.calcTop {s t : Expressions} (h : Evaluates s t) :
    wp calcTop (fun _ t' => Evaluates s t') (fun _ _ => True)
      (fun _ => True) t := by
  rcases top_cases t.operators with
    hops | hops | ⟨op, rest, hops, hleft⟩ | ⟨op, rest, hops, hop⟩ |
    ⟨bop, rest, hops⟩
  · rw [wp_calcTop_noRight
      (by simpa [peekOp, List.head?_eq_getElem?] using hops)]
    trivial
  · rw [wp_calcTop_single hops]
    trivial
  · rw [wp_calcTop_noLeft hops hleft]
    trivial
  · rw [wp_calcTop_notReached hops hop]
    trivial
  · rw [wp_calcTop_real hops]
    have hbelow := h.below
    simp only [hops, ne_eq, reduceCtorEq, not_false_eq_true,
      belowBrace_cons] at hbelow
    have htop : s.operators.head? = some Operator.number := by
      rcases h.top with rfl | ⟨hs, _⟩
      · simp [hops]
      · exact hs
    split
    · refine ⟨h.braceLevel, ?_, Or.inr ⟨htop, rfl⟩⟩
      simp only [pushed_operators, dropCalc_operators, ne_eq, reduceCtorEq,
        not_false_eq_true, belowBrace_cons, belowBrace_dropNew, hbelow]
    · trivial
    · trivial

theorem eval_evaluates (s : Expressions) :
    wp (eval false)
      (fun _ t => Evaluates s t ∧ Resolved t.operators)
      (fun _ _ => True) (fun _ => True) s :=
  wp_eval_of_invariant (Evaluates s) (Evaluates.refl s)
    (fun _ ht _ => ht.calcTop) (fun _ ht hres => ⟨ht, hres⟩)

/-!
## Discarding arguments
-/

/-- What is left after the arguments have been discarded.  An operator on the
top keeps the evaluation from touching the stack, and so does the marker of a
comma. -/
structure Discards (s d : Expressions) : Prop where
  braceLevel : d.braceLevel = s.braceLevel
  below : belowBrace d.operators = belowBrace s.operators
  resolved : Resolved d.operators
  noArgs : d.operators.head? ≠ some Operator.number
  dangling : forall op, (s.operators.head? = some (Operator.real op) ∨
    d.operators.head? = some (Operator.real op)) ->
      d.operators = s.operators
  comma : s.operators.head? = some Operator.new ->
    d.operators.head? = some Operator.new

theorem resolved_drop {k : Nat} {r : List Operator}
    (h : Resolved (List.replicate k Operator.number ++ r)) : Resolved r := by
  induction k with
  | zero => simpa using h
  | succ k ih =>
      rw [List.replicate_succ, List.cons_append] at h
      exact ih (resolved_tail Operator.isArgument_number h)

theorem resolved_number_top {r : List Operator} {op : BinaryOp}
    (h : Resolved (Operator.number :: r)) :
    r.head? ≠ some (Operator.real op) := by
  intro hr
  generalize hops : Operator.number :: r = ops at h
  cases h with
  | empty hvals =>
      obtain ⟨r', rfl⟩ := List.head?_eq_some_iff.mp hr
      subst hops
      have := hvals (Operator.real op) (by simp)
      simp at this
  | @brace vals rest hvals =>
      rcases vals with _ | ⟨v, _ | ⟨v', vals⟩⟩
      · cases hops
      · cases hops
        simp at hr
      · cases hops
        have hv' : v' = Operator.real op := by simpa using hr
        have := hvals v' (by simp)
        simp [hv'] at this
  | dangling => cases hops

theorem discardArgs_discards (s : Expressions) :
    wp discardArgs (fun _ d => Discards s d) (fun _ _ => True)
      (fun _ => True) s := by
  refine wp_discardArgs (wp_call (eval_evaluates s) ?_)
  rintro _ u ⟨hu, hres⟩
  refine ⟨hres, ?_⟩
  intro r hops hr
  have hresr : Resolved r := by
    rw [hops] at hres
    exact resolved_drop hres
  refine ⟨hu.braceLevel, ?_, hresr, hr, ?_, ?_⟩
  · rw [<- hu.below, hops, belowBrace_append r (isArgument_replicate _)]
    rfl
  · intro op hop
    cases hargs : u.args with
    | zero =>
        rw [hargs] at hops
        rcases hu.top with hus | ⟨_, hnumber⟩
        · rw [<- hus, hops]
          rfl
        · rw [hops] at hnumber
          exact absurd hnumber hr
    | succ k =>
        rw [hargs, List.replicate_succ', List.append_assoc] at hops
        rcases hop with hop | hop
        · rcases hu.top with hus | ⟨hnumber, _⟩
          · rw [<- hus, hops] at hop
            cases k <;> simp [List.replicate_succ] at hop
          · simp [hop] at hnumber
        · rw [hops] at hres
          exact absurd hop (resolved_number_top (resolved_drop hres))
  · intro hnew
    rcases hu.top with hus | ⟨hnumber, _⟩
    · rw [<- hus, hops] at hnew
      cases hargs : u.args with
      | zero =>
          simp only [hargs, List.replicate_zero, List.nil_append] at hnew
          exact hnew
      | succ k => simp [hargs, List.replicate_succ] at hnew
    · simp [hnumber] at hnew

/-- A resolved stack without arguments on its top. -/
theorem resolved_noArgs_cases {ops : List Operator} (h : Resolved ops)
    (hhead : ops.head? ≠ some Operator.number) :
    ops = [] ∨ ops.head? = some Operator.new ∨
      (exists rest, ops = Operator.brace :: rest) ∨
      exists op rest, ops = Operator.real op :: rest := by
  cases ops with
  | nil => exact Or.inl rfl
  | cons op ops =>
      cases op with
      | new => exact Or.inr (Or.inl rfl)
      | number => simp at hhead
      | brace => exact Or.inr (Or.inr (Or.inl ⟨ops, rfl⟩))
      | real op => exact Or.inr (Or.inr (Or.inr ⟨op, ops, rfl⟩))

/-!
## Closing a brace level
-/

theorem wp_eval_true_resolved {s : Expressions}
    {post : Unit -> Expressions -> Prop}
    {fail : TecoError -> Expressions -> Prop} {bad : Fault -> Prop}
    (h : Resolved s.operators) :
    wp (eval true) post fail bad s <-> post () s.braceRemoved := by
  rw [wp_eval_true, wp_eval_resolved h]

theorem braceRemoved_braceLevel (s : Expressions) :
    s.braceRemoved.braceLevel = s.braceLevel := by
  unfold braceRemoved
  split
  · rfl
  · split <;> rfl

theorem braceRemoved_dangling {s : Expressions} {op : BinaryOp}
    {rest : List Operator} (h : s.operators = Operator.real op :: rest) :
    s.braceRemoved = s := by
  have hfirst : s.firstOp = some 0 :=
    firstOp_eq_some (show s.operators = [] ++ Operator.real op :: rest from h)
      (by simp) (Operator.isArgument_real op)
  simp [braceRemoved, hfirst, peekOp, h]

/-- A comma that is still open stays on the top. -/
theorem braceRemoved_comma {s : Expressions}
    (h : s.operators.head? = some Operator.new)
    (hres : Resolved s.operators) :
    s.braceRemoved.operators.head? = some Operator.new := by
  generalize hops : s.operators = ops at hres
  cases hres with
  | empty hvals =>
      have hnone : s.firstOp = none := firstOp_eq_none (by rwa [hops])
      simpa [braceRemoved, hnone] using h
  | @brace vals rest hvals =>
      rw [braceRemoved_eq hops hvals]
      cases vals with
      | nil => simp [hops] at h
      | cons v vals => simpa [hops] using h
  | dangling => simp [hops] at h

/-- The operator stack that the next round of
`teco_expressions_brace_return()` works on. -/
inductive NextLevel (ops : List Operator) : List Operator -> Prop where
  | dangling {op : BinaryOp} (h : ops.head? = some (Operator.real op)) :
      NextLevel ops ops
  | closed (hreal : forall op, ops.head? ≠ some (Operator.real op))
      (hnew : ops.head? ≠ some Operator.new) :
      NextLevel ops (belowBrace ops).tail
  | comma {next : List Operator}
      (hreal : forall op, ops.head? ≠ some (Operator.real op))
      (h : next.head? = some Operator.new) : NextLevel ops next

theorem Discards.nextLevel {s d : Expressions} (h : Discards s d) :
    NextLevel s.operators d.braceRemoved.operators := by
  have hsreal : (forall op, d.operators.head? ≠ some (Operator.real op)) ->
      forall op, s.operators.head? ≠ some (Operator.real op) := by
    intro hd op hop
    have hsame := h.dangling op (Or.inl hop)
    exact hd op (by rwa [hsame])
  have hsnew : d.operators.head? ≠ some Operator.new ->
      s.operators.head? ≠ some Operator.new :=
    fun hd hs => hd (h.comma hs)
  rcases resolved_noArgs_cases h.resolved h.noArgs with
    hnil | hnew | ⟨rest, hbrace⟩ | ⟨op, rest, hreal⟩
  · have hnone : d.firstOp = none := firstOp_eq_none (by simp [hnil])
    have hbelow : belowBrace s.operators = [] := by
      rw [<- h.below, hnil]
      rfl
    have hclosed := NextLevel.closed (hsreal (by simp [hnil]))
      (hsnew (by simp [hnil]))
    rw [hbelow] at hclosed
    simpa [braceRemoved, hnone, hnil] using hclosed
  · exact NextLevel.comma (hsreal (by simp [hnew]))
      (braceRemoved_comma hnew h.resolved)
  · have hbelow : belowBrace s.operators = Operator.brace :: rest := by
      rw [<- h.below, hbrace]
      rfl
    have hclosed := NextLevel.closed (hsreal (by simp [hbrace]))
      (hsnew (by simp [hbrace]))
    rw [hbelow] at hclosed
    rw [braceRemoved_eq (show d.operators = [] ++ Operator.brace :: rest
      from hbrace) (by simp)]
    exact hclosed
  · have hsame := h.dangling op (Or.inr (by simp [hreal]))
    rw [braceRemoved_dangling hreal, hsame]
    exact NextLevel.dangling (show _ = some (Operator.real op) by simp [<- hsame, hreal])

/-- The effect of one round on the operator stack. -/
theorem closeLevel_next (s : Expressions) :
    wp discardArgs
      (fun _ d => wp (eval true)
        (fun _ t => NextLevel s.operators t.operators ∧
          t.braceLevel = s.braceLevel)
        (fun _ _ => True) (fun _ => True) d)
      (fun _ _ => True) (fun _ => True) s := by
  refine wp_call (discardArgs_discards s) ?_
  intro _ d hd
  rw [wp_eval_true_resolved hd.resolved]
  exact ⟨hd.nextLevel, by rw [braceRemoved_braceLevel, hd.braceLevel]⟩

end Expressions
end SciTECO
