import Mathlib.Data.List.TakeWhile
import SciTECO.Expressions.Stacks

/-!
# Rules for the expression stacks

One rule for every operation on the stacks, so that later proofs need not
unfold the operation.  The loops are also shown to end before they use up
their fuel.
-/

namespace SciTECO
namespace Expressions

open Undoable

variable {post : Unit -> Expressions -> Prop}
variable {fail : TecoError -> Expressions -> Prop} {bad : Fault -> Prop}
variable {s : Expressions}

/-!
## Pushing and popping
-/

def dropNew (ops : List Operator) : List Operator :=
  ops.dropWhile (fun op => op == Operator.new)

@[simp] theorem dropNew_nil : dropNew [] = [] := rfl

@[simp] theorem dropNew_new (ops : List Operator) :
    dropNew (Operator.new :: ops) = dropNew ops := rfl

theorem dropNew_cons {op : Operator} (ops : List Operator)
    (h : op ≠ Operator.new) : dropNew (op :: ops) = op :: ops := by
  simp [dropNew, h]

/-- The state after `teco_expressions_push_int()`. -/
def pushed (s : Expressions) (n : TecoInt) : Expressions :=
  { numbers := (if s.numSign < 0 then -n else n) :: s.numbers
    operators := Operator.number :: dropNew s.operators
    numSign := if s.numSign < 0 then 1 else s.numSign
    braceLevel := s.braceLevel }

@[simp] theorem pushed_operators (s : Expressions) (n : TecoInt) :
    (s.pushed n).operators = Operator.number :: dropNew s.operators := rfl

@[simp] theorem pushed_braceLevel (s : Expressions) (n : TecoInt) :
    (s.pushed n).braceLevel = s.braceLevel := rfl

@[simp] theorem pushed_numbers_length (s : Expressions) (n : TecoInt) :
    (s.pushed n).numbers.length = s.numbers.length + 1 := by
  simp [pushed]

@[simp] theorem wp_pushOp (op : Operator) :
    wp (pushOp op) post fail bad s <->
      post () { s with operators := op :: s.operators } := by
  simp [pushOp]

theorem wp_popOp {index : Nat} {op : Operator}
    {post : Option Operator -> Expressions -> Prop}
    (h : s.operators[index]? = some op) :
    wp (popOp index) post fail bad s <->
      post (some op)
        { s with operators := s.operators.eraseIdx index } := by
  have hpos : 0 < s.operators.length := by
    have := (List.getElem?_eq_some_iff.mp h).1
    omega
  simp [popOp, peekOp, h, hpos]

theorem wp_popOp_nil {index : Nat}
    {post : Option Operator -> Expressions -> Prop}
    (h : s.operators = []) :
    wp (popOp index) post fail bad s <-> post none s := by
  simp [popOp, h]

theorem wp_popNewLoop {fuel : Nat} (hfuel : s.operators.length < fuel) :
    wp (popNewLoop fuel) post fail bad s <->
      post () { s with operators := dropNew s.operators } := by
  induction fuel generalizing s with
  | zero => omega
  | succ fuel ih =>
      cases hops : s.operators with
      | nil => 
          have hs : { s with operators := [] } = s := by
            rw [<- hops]
          simp [popNewLoop, peekOp, hops, hs]
      | cons op rest =>
          by_cases hop : op = Operator.new
          · have hget : s.operators[0]? = some op := by simp [hops]
            have hlen : rest.length < fuel := by
              simp [hops] at hfuel
              omega
            simp only [popNewLoop, wp_bind, wp_get, wp_ite, peekOp, hget, hop]
            rw [wp_popOp (hget.trans (by rw [hop]))]
            simp [hops, hop, ih, hlen]
          · have hs : { s with operators := dropNew (op :: rest) } = s := by
              rw [dropNew_cons rest hop, <- hops]
            simp [popNewLoop, peekOp, hops, hop, hs]

@[simp] theorem wp_popNew :
    wp popNew post fail bad s <->
      post () { s with operators := dropNew s.operators } := by
  simp [popNew, wp_popNewLoop]

@[simp] theorem wp_setNumSign (sign : Int) :
    wp (setNumSign sign) post fail bad s <->
      post () { s with numSign := sign } := by
  simp [setNumSign]

@[simp] theorem wp_undoBraceLevel :
    wp undoBraceLevel post fail bad s <-> post () s := by
  simp [undoBraceLevel]

@[simp] theorem wp_setBraceLevel (level : Nat) :
    wp (setBraceLevel level) post fail bad s <->
      post () { s with braceLevel := level } := by
  simp [setBraceLevel]

@[simp] theorem wp_pushInt (n : TecoInt) :
    wp (pushInt n) post fail bad s <-> post () (s.pushed n) := by
  by_cases h : s.numSign < 0 <;> simp [pushInt, pushed, h]

/-- The value which `teco_expressions_pop_num()` returns is 0 if the number
stack is empty. -/
theorem wp_popNum {rest : List Operator}
    {post : TecoInt -> Expressions -> Prop}
    (h : s.operators = Operator.number :: rest) :
    wp (popNum 0) post fail bad s <->
      post (s.numbers.headD 0)
        { s with operators := rest, numbers := s.numbers.tail } := by
  have hget : s.operators[0]? = some Operator.number := by simp [h]
  simp only [popNum, wp_bind]
  rw [wp_popOp hget]
  cases hnum : s.numbers with
  | nil => 
      have hs : { s with operators := rest, numbers := [] } =
          { s with operators := rest } := by rw [<- hnum]
      simp [h, hnum, hs]
  | cons n ns => simp [h, peekNum]

/-!
## Resolving one operator
-/

/-- The state after the two values and the operator on the top have been
removed. -/
def dropCalc (s : Expressions) (rest : List Operator) : Expressions :=
  { s with operators := rest, numbers := s.numbers.tail.tail }

@[simp] theorem dropCalc_operators (s : Expressions) (rest : List Operator) :
    (s.dropCalc rest).operators = rest := rfl

theorem wp_calcTop_real {op : BinaryOp} {rest : List Operator}
    (h : s.operators =
      Operator.number :: Operator.real op :: Operator.number :: rest) :
    wp calcTop post fail bad s <->
      match applyOp op (s.numbers.tail.headD 0) (s.numbers.headD 0) with
      | .ok v => post () ((s.dropCalc rest).pushed v)
      | .error (.error e) => fail e (s.dropCalc rest)
      | .error (.fault c) => bad c := by
  have hget : s.peekOp 0 = some Operator.number := by simp [peekOp, h]
  simp only [calcTop, wp_bind, wp_get, wp_ite, hget, if_true]
  rw [wp_popNum h, wp_popOp rfl]
  simp only [List.eraseIdx_zero, List.tail_cons, peekOp,
    List.getElem?_cons_zero, if_true]
  rw [wp_popNum rfl]
  rw [wp_bind, wp_ofExcept]
  rcases applyOp op (s.numbers.tail.headD 0) (s.numbers.headD 0) with
    (e | c) | v
  · exact Iff.rfl
  · exact Iff.rfl
  · simp [dropCalc]

theorem wp_calcTop_noRight (h : s.peekOp 0 ≠ some Operator.number) :
    wp calcTop post fail bad s <->
      fail (TecoError.failed "Missing right operand") s := by
  simp [calcTop, h]

theorem wp_calcTop_single (h : s.operators = [Operator.number]) :
    wp calcTop post fail bad s <->
      fail (TecoError.failed "Missing left operand")
        { s with operators := [], numbers := s.numbers.tail } := by
  have hget : s.peekOp 0 = some Operator.number := by simp [peekOp, h]
  simp only [calcTop, wp_bind, wp_get, wp_ite, hget, if_true]
  rw [wp_popNum h, wp_popOp_nil rfl]
  simp [peekOp]

theorem wp_calcTop_noLeft {op : Operator} {rest : List Operator}
    (h : s.operators = Operator.number :: op :: rest)
    (hleft : rest.head? ≠ some Operator.number) :
    wp calcTop post fail bad s <->
      fail (TecoError.failed "Missing left operand")
        { s with operators := rest, numbers := s.numbers.tail } := by
  have hget : s.peekOp 0 = some Operator.number := by simp [peekOp, h]
  simp only [calcTop, wp_bind, wp_get, wp_ite, hget, if_true]
  rw [wp_popNum h, wp_popOp rfl]
  rw [List.head?_eq_getElem?] at hleft
  simp [peekOp, hleft]

/-- What `g_assert_not_reached()` guards against. -/
theorem wp_calcTop_notReached {op : Operator} {rest : List Operator}
    (h : s.operators = Operator.number :: op :: Operator.number :: rest)
    (hop : forall bop, op ≠ Operator.real bop) :
    wp calcTop post fail bad s <-> bad Fault.assertNotReached := by
  have hget : s.peekOp 0 = some Operator.number := by simp [peekOp, h]
  simp only [calcTop, wp_bind, wp_get, wp_ite, hget, if_true]
  rw [wp_popNum h, wp_popOp rfl]
  simp only [List.eraseIdx_zero, List.tail_cons, peekOp,
    List.getElem?_cons_zero, if_true]
  rw [wp_popNum rfl]
  cases op with
  | real bop => exact absurd rfl (hop bop)
  | new => exact Iff.rfl
  | brace => exact Iff.rfl
  | number => exact Iff.rfl

/-- The shapes of the operator stack that `teco_expressions_calc()` tells
apart. -/
theorem top_cases (ops : List Operator) :
    ops.head? ≠ some Operator.number ∨
    ops = [Operator.number] ∨
    (exists op rest, ops = Operator.number :: op :: rest ∧
      rest.head? ≠ some Operator.number) ∨
    (exists op rest, ops = Operator.number :: op :: Operator.number :: rest ∧
      forall bop, op ≠ Operator.real bop) ∨
    (exists bop rest, ops =
      Operator.number :: Operator.real bop :: Operator.number :: rest) := by
  rcases ops with _ | ⟨top, _ | ⟨op, rest⟩⟩
  · simp
  · by_cases htop : top = Operator.number <;> simp [htop]
  · by_cases htop : top = Operator.number
    · subst htop
      by_cases hleft : rest.head? = some Operator.number
      · obtain ⟨rest, rfl⟩ := List.head?_eq_some_iff.mp hleft
        cases op <;> simp
      · exact Or.inr (Or.inr (Or.inl ⟨op, rest, rfl, hleft⟩))
    · simp [htop]

theorem dropNew_length_le (ops : List Operator) :
    (dropNew ops).length <= ops.length :=
  (List.dropWhile_sublist _).length_le

/-- Resolving an operator shrinks the operator stack. -/
theorem calcTop_length :
    wp calcTop
      (fun _ t => t.operators.length < s.operators.length)
      (fun _ _ => True) (fun _ => True) s := by
  rcases top_cases s.operators with
    h | h | ⟨op, rest, h, hleft⟩ | ⟨op, rest, h, hop⟩ | ⟨bop, rest, h⟩
  · rw [wp_calcTop_noRight (by simpa [peekOp, List.head?_eq_getElem?] using h)]
    trivial
  · rw [wp_calcTop_single h]
    trivial
  · rw [wp_calcTop_noLeft h hleft]
    trivial
  · rw [wp_calcTop_notReached h hop]
    trivial
  · rw [wp_calcTop_real h]
    have hle := dropNew_length_le rest
    split <;> simp [h]
    omega

/-!
## The first operator
-/

/-- Every operator stack either holds arguments only, or splits at its first
operator. -/
theorem split_arguments (ops : List Operator) :
    (forall op, op ∈ ops -> op.isArgument = true) ∨
      exists vals op rest, ops = vals ++ op :: rest ∧
        (forall v, v ∈ vals -> v.isArgument = true) ∧ op.isArgument = false := by
  induction ops with
  | nil => simp
  | cons op ops ih =>
      cases hop : op.isArgument with
      | false => exact Or.inr ⟨[], op, ops, rfl, by simp, hop⟩
      | true =>
          rcases ih with hall | ⟨vals, op', rest, rfl, hvals, hop'⟩
          · left
            simpa [hop] using hall
          · right
            refine ⟨op :: vals, op', rest, rfl, ?_, hop'⟩
            simpa [hop] using hvals

theorem firstOp_eq_none
    (h : forall op, op ∈ s.operators -> op.isArgument = true) :
    s.firstOp = none := by
  simpa [firstOp] using h

theorem firstOp_eq_some {vals rest : List Operator} {op : Operator}
    (h : s.operators = vals ++ op :: rest)
    (hvals : forall v, v ∈ vals -> v.isArgument = true)
    (hop : op.isArgument = false) :
    s.firstOp = some vals.length := by
  rw [firstOp, h, List.findIdx?_append]
  have hnone : vals.findIdx? (fun op => !op.isArgument) = none := by
    simpa using hvals
  simp [hnone, List.findIdx?_cons, hop]

theorem peekOp_append {vals rest : List Operator} {op : Operator}
    (h : s.operators = vals ++ op :: rest) :
    s.peekOp vals.length = some op := by
  simp [peekOp, h]

/-!
## Evaluation
-/

theorem wp_evalLoop_none {popBrace : Bool} {fuel : Nat}
    (h : s.firstOp = none) :
    wp (evalLoop popBrace (fuel + 1)) post fail bad s <-> post () s := by
  simp [evalLoop, h]

theorem wp_evalLoop_brace {popBrace : Bool} {fuel : Nat}
    {vals rest : List Operator}
    (h : s.operators = vals ++ Operator.brace :: rest)
    (hvals : forall v, v ∈ vals -> v.isArgument = true) :
    wp (evalLoop popBrace (fuel + 1)) post fail bad s <->
      post () (if popBrace then { s with operators := vals ++ rest }
        else s) := by
  have hget : s.operators[vals.length]? = some Operator.brace := by simp [h]
  simp only [evalLoop, wp_bind, wp_get,
    firstOp_eq_some h hvals Operator.isArgument_brace, wp_ite,
    peekOp_append h, if_true]
  cases popBrace with
  | false => simp
  | true =>
      simp only [if_true]
      rw [wp_popOp hget, wp_pure, h,
        List.eraseIdx_append_of_length_le (Nat.le_refl _)]
      simp

theorem wp_evalLoop_dangling {popBrace : Bool} {fuel : Nat} {op : BinaryOp}
    {rest : List Operator} (h : s.operators = Operator.real op :: rest) :
    wp (evalLoop popBrace (fuel + 1)) post fail bad s <-> post () s := by
  have hfirst : s.firstOp = some 0 :=
    firstOp_eq_some (show s.operators = [] ++ Operator.real op :: rest from h)
      (by simp) (Operator.isArgument_real op)
  simp [evalLoop, hfirst, peekOp, h]

theorem wp_evalLoop_calc {popBrace : Bool} {fuel : Nat} {op : BinaryOp}
    {vals rest : List Operator}
    (h : s.operators = vals ++ Operator.real op :: rest)
    (hvals : forall v, v ∈ vals -> v.isArgument = true) (hne : vals ≠ []) :
    wp (evalLoop popBrace (fuel + 1)) post fail bad s <->
      wp calcTop (fun _ t => wp (evalLoop popBrace fuel) post fail bad t)
        fail bad s := by
  have hpos : ¬ vals.length < 1 := by
    have := List.length_pos_iff.mpr hne
    omega
  simp only [evalLoop, wp_bind, wp_get,
    firstOp_eq_some h hvals (Operator.isArgument_real op),
    peekOp_append h, Option.some.injEq, reduceCtorEq, if_false, hpos]

/-- No operator of the innermost level can be resolved: there is none, or the
innermost brace or a dangling operator comes first. -/
inductive Resolved : List Operator -> Prop where
  | empty {vals : List Operator}
      (hvals : forall v, v ∈ vals -> v.isArgument = true) : Resolved vals
  | brace {vals rest : List Operator}
      (hvals : forall v, v ∈ vals -> v.isArgument = true) :
      Resolved (vals ++ Operator.brace :: rest)
  | dangling {op : BinaryOp} {rest : List Operator} :
      Resolved (Operator.real op :: rest)

/-- An operator of the innermost level has something above it. -/
def Pending (ops : List Operator) : Prop :=
  exists vals op rest, ops = vals ++ Operator.real op :: rest ∧
    (forall v, v ∈ vals -> v.isArgument = true) ∧ vals ≠ []

theorem resolved_or_pending (ops : List Operator) :
    Resolved ops ∨ Pending ops := by
  rcases split_arguments ops with hall | ⟨vals, op, rest, rfl, hvals, hop⟩
  · exact Or.inl (Resolved.empty hall)
  · cases op with
    | new => simp at hop
    | number => simp at hop
    | brace => exact Or.inl (Resolved.brace hvals)
    | real op =>
        cases vals with
        | nil => exact Or.inl Resolved.dangling
        | cons v vals =>
            exact Or.inr ⟨_, op, rest, rfl, hvals, List.cons_ne_nil _ _⟩

theorem wp_evalLoop_resolved {fuel : Nat} (h : Resolved s.operators) :
    wp (evalLoop false (fuel + 1)) post fail bad s <-> post () s := by
  generalize hops : s.operators = ops at h
  cases h with
  | empty hvals =>
      exact wp_evalLoop_none (firstOp_eq_none (by rwa [hops]))
  | brace hvals =>
      rw [wp_evalLoop_brace hops hvals]
      simp
  | dangling => exact wp_evalLoop_dangling hops

/-- The rule for evaluation: what resolving one operator preserves holds of
the state in which nothing is left to be resolved. -/
theorem wp_eval_of_invariant (inv : Expressions -> Prop)
    (hinv : inv s)
    (hcalc : forall t, inv t -> Pending t.operators ->
      wp calcTop (fun _ t' => inv t') fail bad t)
    (hdone : forall t, inv t -> Resolved t.operators -> post () t) :
    wp (eval false) post fail bad s := by
  have hloop : forall fuel (t : Expressions), t.operators.length < fuel ->
      inv t -> wp (evalLoop false fuel) post fail bad t := by
    intro fuel
    induction fuel with
    | zero =>
        intro t hfuel
        omega
    | succ fuel ih =>
        intro t hfuel ht
        rcases resolved_or_pending t.operators with hres | hpend
        · exact (wp_evalLoop_resolved hres).mpr (hdone t ht hres)
        · obtain ⟨vals, op, rest, hops, hvals, hne⟩ := hpend
          have hstep := hcalc t ht ⟨vals, op, rest, hops, hvals, hne⟩
          rw [wp_evalLoop_calc hops hvals hne]
          refine wp_call_and hstep calcTop_length ?_
          intro _ t' ht' hlen
          exact ih t' (by omega) ht'
  simp only [eval, wp_bind, wp_get]
  exact hloop _ s (Nat.lt_succ_self _) hinv

theorem wp_evalLoop_fuel {popBrace : Bool} {fuel fuel' : Nat}
    (h : s.operators.length < fuel) (h' : s.operators.length < fuel') :
    wp (evalLoop popBrace fuel) post fail bad s <->
      wp (evalLoop popBrace fuel') post fail bad s := by
  induction fuel generalizing s fuel' with
  | zero => omega
  | succ fuel ih =>
      obtain ⟨fuel', rfl⟩ := Nat.exists_eq_succ_of_ne_zero
        (show fuel' ≠ 0 by omega)
      rcases resolved_or_pending s.operators with
        hres | ⟨vals, op, rest, hops, hvals, hne⟩
      · generalize hops : s.operators = ops at hres
        cases hres with
        | empty hvals =>
            have hnone := firstOp_eq_none (s := s) (by rwa [hops])
            rw [wp_evalLoop_none hnone, wp_evalLoop_none hnone]
        | brace hvals =>
            rw [wp_evalLoop_brace hops hvals, wp_evalLoop_brace hops hvals]
        | dangling =>
            rw [wp_evalLoop_dangling hops, wp_evalLoop_dangling hops]
      · rw [wp_evalLoop_calc hops hvals hne, wp_evalLoop_calc hops hvals hne]
        refine wp_congr calcTop_length ?_
        intro _ t ht
        exact ih (by omega) (by omega)

theorem wp_eval_pending {popBrace : Bool} (h : Pending s.operators) :
    wp (eval popBrace) post fail bad s <->
      wp calcTop (fun _ t => wp (eval popBrace) post fail bad t)
        fail bad s := by
  rcases h with ⟨vals, op, rest, hops, hvals, hne⟩
  simp only [eval, wp_bind, wp_get]
  rw [wp_evalLoop_calc hops hvals hne]
  refine wp_congr calcTop_length ?_
  intro _ t ht
  exact wp_evalLoop_fuel ht (Nat.lt_succ_self _)

theorem wp_eval_resolved (h : Resolved s.operators) :
    wp (eval false) post fail bad s <-> post () s := by
  simp only [eval, wp_bind, wp_get]
  exact wp_evalLoop_resolved h

/-- The state after the innermost brace has been removed, if it is the first
operator. -/
def braceRemoved (s : Expressions) : Expressions :=
  match s.firstOp with
  | none => s
  | some n =>
      if s.peekOp n = some Operator.brace then
        { s with operators := s.operators.eraseIdx n }
      else
        s

theorem braceRemoved_eq {vals rest : List Operator}
    (h : s.operators = vals ++ Operator.brace :: rest)
    (hvals : forall v, v ∈ vals -> v.isArgument = true) :
    s.braceRemoved = { s with operators := vals ++ rest } := by
  simp only [braceRemoved, firstOp_eq_some h hvals Operator.isArgument_brace,
    peekOp_append h, if_true]
  rw [h, List.eraseIdx_append_of_length_le (Nat.le_refl _)]
  simp

theorem wp_evalLoop_true {fuel : Nat} :
    wp (evalLoop true fuel) post fail bad s <->
      wp (evalLoop false fuel) (fun _ t => post () t.braceRemoved)
        fail bad s := by
  induction fuel generalizing s with
  | zero => exact Iff.rfl
  | succ fuel ih =>
      rcases split_arguments s.operators with
        hall | ⟨vals, op, rest, hops, hvals, hop⟩
      · have hnone := firstOp_eq_none hall
        rw [wp_evalLoop_none hnone, wp_evalLoop_none hnone]
        simp [braceRemoved, hnone]
      · cases op with
        | new => simp at hop
        | number => simp at hop
        | brace =>
            rw [wp_evalLoop_brace hops hvals, wp_evalLoop_brace hops hvals]
            simp [braceRemoved_eq hops hvals]
        | real op =>
            cases vals with
            | nil =>
                have hfirst : s.firstOp = some 0 :=
                  firstOp_eq_some hops hvals hop
                rw [wp_evalLoop_dangling hops, wp_evalLoop_dangling hops]
                simp [braceRemoved, hfirst, peekOp, hops]
            | cons v vals =>
                rw [wp_evalLoop_calc hops hvals (List.cons_ne_nil _ _),
                  wp_evalLoop_calc hops hvals (List.cons_ne_nil _ _)]
                have hpost :
                    (fun (_ : Unit) t =>
                      wp (evalLoop true fuel) post fail bad t) =
                    fun _ t => wp (evalLoop false fuel)
                      (fun _ t => post () t.braceRemoved) fail bad t := by
                  funext _ t
                  exact propext ih
                rw [hpost]

/-- Evaluation with `pop_brace` removes the brace after the evaluation. -/
theorem wp_eval_true :
    wp (eval true) post fail bad s <->
      wp (eval false) (fun _ t => post () t.braceRemoved) fail bad s := by
  simp only [eval, wp_bind, wp_get]
  exact wp_evalLoop_true

theorem wp_eval_true_brace {vals rest : List Operator}
    (h : s.operators = vals ++ Operator.brace :: rest)
    (hvals : forall v, v ∈ vals -> v.isArgument = true) :
    wp (eval true) post fail bad s <->
      post () { s with operators := vals ++ rest } := by
  rw [wp_eval_true, wp_eval_resolved (by rw [h]; exact Resolved.brace hvals),
    braceRemoved_eq h hvals]

/-- Nothing of the innermost level has to be resolved before an operator of
precedence `p` is pushed. -/
def Yields (p : Nat) (ops : List Operator) : Prop :=
  (forall v, v ∈ ops -> v.isArgument = true) ∨
  (exists vals rest, ops = vals ++ Operator.brace :: rest ∧
    forall v, v ∈ vals -> v.isArgument = true) ∨
  exists vals top rest, ops = vals ++ Operator.real top :: rest ∧
    (forall v, v ∈ vals -> v.isArgument = true) ∧
    (Operator.real top).precedence < p

/-- The first operator of the innermost level has at least precedence `p`. -/
def Outranks (p : Nat) (ops : List Operator) : Prop :=
  exists vals top rest, ops = vals ++ Operator.real top :: rest ∧
    (forall v, v ∈ vals -> v.isArgument = true) ∧
    p <= (Operator.real top).precedence

theorem yields_or_outranks (p : Nat) (ops : List Operator) :
    Yields p ops ∨ Outranks p ops := by
  rcases split_arguments ops with hall | ⟨vals, top, rest, rfl, hvals, hop⟩
  · exact Or.inl (Or.inl hall)
  · cases top with
    | new => simp at hop
    | number => simp at hop
    | brace => exact Or.inl (Or.inr (Or.inl ⟨vals, rest, rfl, hvals⟩))
    | real top =>
        rcases Nat.lt_or_ge (Operator.real top).precedence p with hlt | hge
        · exact Or.inl (Or.inr (Or.inr ⟨vals, top, rest, rfl, hvals, hlt⟩))
        · exact Or.inr ⟨vals, top, rest, rfl, hvals, hge⟩

theorem wp_pushCalcLoop_yields {op : BinaryOp} {fuel : Nat}
    (h : Yields (Operator.real op).precedence s.operators) :
    wp (pushCalcLoop op (fuel + 1)) post fail bad s <-> post () s := by
  rcases h with hall | ⟨vals, rest, hops, hvals⟩ |
    ⟨vals, top, rest, hops, hvals, hlt⟩
  · simp [pushCalcLoop, firstOp_eq_none hall]
  · have hfirst := firstOp_eq_some hops hvals Operator.isArgument_brace
    simp [pushCalcLoop, hfirst, peekOp_append hops,
      Operator.brace_precedence_lt]
  · have hfirst := firstOp_eq_some hops hvals (Operator.isArgument_real top)
    simp [pushCalcLoop, hfirst, peekOp_append hops, hlt]

theorem wp_pushCalcLoop_outranks {op : BinaryOp} {fuel : Nat}
    (h : Outranks (Operator.real op).precedence s.operators) :
    wp (pushCalcLoop op (fuel + 1)) post fail bad s <->
      wp calcTop (fun _ t => wp (pushCalcLoop op fuel) post fail bad t)
        fail bad s := by
  rcases h with ⟨vals, top, rest, hops, hvals, hge⟩
  have hfirst := firstOp_eq_some hops hvals (Operator.isArgument_real top)
  simp [pushCalcLoop, hfirst, peekOp_append hops, Nat.not_lt.mpr hge]

theorem wp_pushCalcLoop_fuel {op : BinaryOp} {fuel fuel' : Nat}
    (h : s.operators.length < fuel) (h' : s.operators.length < fuel') :
    wp (pushCalcLoop op fuel) post fail bad s <->
      wp (pushCalcLoop op fuel') post fail bad s := by
  induction fuel generalizing s fuel' with
  | zero => omega
  | succ fuel ih =>
      obtain ⟨fuel', rfl⟩ := Nat.exists_eq_succ_of_ne_zero
        (show fuel' ≠ 0 by omega)
      rcases yields_or_outranks (Operator.real op).precedence s.operators with
        hyields | hout
      · rw [wp_pushCalcLoop_yields hyields, wp_pushCalcLoop_yields hyields]
      · rw [wp_pushCalcLoop_outranks hout, wp_pushCalcLoop_outranks hout]
        refine wp_congr calcTop_length ?_
        intro _ t ht
        exact ih (by omega) (by omega)

theorem wp_pushCalc_yields {op : BinaryOp}
    (h : Yields (Operator.real op).precedence s.operators) :
    wp (pushCalc op) post fail bad s <->
      post () { s with operators := Operator.real op :: s.operators } := by
  simp only [pushCalc, wp_bind, wp_get, wp_pushOp]
  exact wp_pushCalcLoop_yields h

theorem wp_pushCalc_outranks {op : BinaryOp}
    (h : Outranks (Operator.real op).precedence s.operators) :
    wp (pushCalc op) post fail bad s <->
      wp calcTop (fun _ t => wp (pushCalc op) post fail bad t)
        fail bad s := by
  simp only [pushCalc, wp_bind, wp_get, wp_pushOp]
  rw [wp_pushCalcLoop_outranks h]
  refine wp_congr calcTop_length ?_
  intro _ t ht
  exact wp_pushCalcLoop_fuel ht (Nat.lt_succ_self _)

/-- The rule for pushing an operator. -/
theorem wp_pushCalc_of_invariant {op : BinaryOp}
    (inv : Expressions -> Prop) (hinv : inv s)
    (hcalc : forall t, inv t -> Outranks (Operator.real op).precedence t.operators ->
      wp calcTop (fun _ t' => inv t') fail bad t)
    (hdone : forall t, inv t -> Yields (Operator.real op).precedence t.operators ->
      post () { t with operators := Operator.real op :: t.operators }) :
    wp (pushCalc op) post fail bad s := by
  have hloop : forall fuel (t : Expressions), t.operators.length < fuel ->
      inv t -> wp (pushCalcLoop op fuel)
        (fun _ t => inv t ∧ Yields (Operator.real op).precedence t.operators) fail bad t := by
    intro fuel
    induction fuel with
    | zero =>
        intro t hfuel
        omega
    | succ fuel ih =>
        intro t hfuel ht
        rcases yields_or_outranks (Operator.real op).precedence t.operators with
          hyields | hout
        · exact (wp_pushCalcLoop_yields hyields).mpr ⟨ht, hyields⟩
        · rw [wp_pushCalcLoop_outranks hout]
          refine wp_call_and (hcalc t ht hout) calcTop_length ?_
          intro _ t' ht' hlen
          exact ih t' (by omega) ht'
  simp only [pushCalc, wp_bind, wp_get, wp_pushOp]
  refine wp_call (hloop _ s (Nat.lt_succ_self _) hinv) ?_
  intro _ t h
  exact hdone t h.1 h.2

/-!
## Arguments
-/

theorem args_append {k : Nat} {rest : List Operator}
    (h : s.operators = List.replicate k Operator.number ++ rest)
    (hrest : rest.head? ≠ some Operator.number) : s.args = k := by
  have htake : rest.takeWhile (fun op => op == Operator.number) = [] := by
    cases rest with
    | nil => rfl
    | cons op rest => 
        have hop : op ≠ Operator.number := by simpa using hrest
        simp [hop]
  rw [args, h, List.takeWhile_append_of_pos (by simp), htake]
  simp

/-- Every operator stack starts with its arguments. -/
theorem args_split (s : Expressions) :
    exists rest, s.operators =
        List.replicate s.args Operator.number ++ rest ∧
      rest.head? ≠ some Operator.number := by
  refine ⟨s.operators.dropWhile (fun op => op == Operator.number), ?_, ?_⟩
  · conv_lhs => rw [<- List.takeWhile_append_dropWhile
      (p := fun op => op == Operator.number) (l := s.operators)]
    congr 1
    refine List.eq_replicate_iff.mpr ⟨rfl, ?_⟩
    intro op hop
    simpa using List.mem_takeWhile_imp hop
  · intro hhead
    have := List.head?_dropWhile_not (fun op => op == Operator.number)
      s.operators
    rw [hhead] at this
    simp at this

theorem resolved_tail {op : Operator} {ops : List Operator}
    (hop : op.isArgument = true) (h : Resolved (op :: ops)) :
    Resolved ops := by
  generalize hcons : op :: ops = all at h
  cases h with
  | empty hvals =>
      subst hcons
      exact Resolved.empty (fun v hv => hvals v (List.mem_cons_of_mem _ hv))
  | @brace vals rest hvals =>
      cases vals with
      | nil =>
          cases hcons
          simp at hop
      | cons v vals =>
          cases hcons
          exact Resolved.brace
            (fun v hv => hvals v (List.mem_cons_of_mem _ hv))
  | dangling =>
      cases hcons
      simp at hop

theorem wp_popNumCalc_number {imply : TecoInt} {rest : List Operator}
    {post : TecoInt -> Expressions -> Prop}
    (h : s.operators = Operator.number :: rest)
    (hres : Resolved s.operators) :
    wp (popNumCalc imply) post fail bad s <->
      post (s.numbers.headD 0)
        { s with
          operators := rest
          numbers := s.numbers.tail
          numSign := if s.numSign < 0 then 1 else s.numSign } := by
  have hargs : forall sign : Int,
      ({ s with numSign := sign } : Expressions).args > 0 := by
    intro sign
    simp [args, h]
  have hargs' : s.args > 0 := hargs s.numSign
  simp only [popNumCalc, wp_bind, wp_get, wp_ite]
  rw [wp_eval_resolved hres]
  by_cases hsign : s.numSign < 0
  · simp only [hsign, if_true, wp_setNumSign, hargs, wp_popNum h]
    rw [wp_popNum (s := { s with numSign := 1 }) h]
  · simp only [hsign, if_false, wp_pure, hargs', if_true]
    rw [wp_popNum h]

/-- The state after the `k` arguments on the top have been discarded. -/
def discarded (s : Expressions) (k : Nat) (rest : List Operator) :
    Expressions :=
  { s with
    operators := rest
    numbers := s.numbers.drop k
    numSign := if k ≠ 0 ∧ s.numSign < 0 then 1 else s.numSign }

theorem wp_discardArgsLoop {k : Nat} {rest : List Operator}
    (h : s.operators = List.replicate k Operator.number ++ rest)
    (hres : Resolved s.operators) :
    wp (discardArgsLoop k) post fail bad s <->
      post () (s.discarded k rest) := by
  induction k generalizing s with
  | zero =>
      have hops : s.operators = rest := by simpa using h
      have hs : s.discarded 0 rest = s := by
        simp [discarded, <- hops]
      simp [discardArgsLoop, hs]
  | succ k ih =>
      rw [List.replicate_succ, List.cons_append] at h
      simp only [discardArgsLoop, wp_bind]
      rw [wp_popNumCalc_number h hres]
      have hres' : Resolved
          (List.replicate k Operator.number ++ rest) := by
        rw [h] at hres
        exact resolved_tail Operator.isArgument_number hres
      rw [ih rfl hres']
      have hstate : forall t : Expressions,
          ({ operators := List.replicate k Operator.number ++ rest
             numbers := t.numbers.tail
             numSign := if t.numSign < 0 then 1 else t.numSign
             braceLevel := t.braceLevel } : Expressions).discarded k rest =
          t.discarded (k + 1) rest := by
        intro t
        by_cases hsign : t.numSign < 0 <;>
          simp [discarded, hsign]
      rw [hstate]

theorem wp_discardArgs
    (hdone : wp (eval false)
      (fun _ t => Resolved t.operators ∧ forall rest,
        t.operators = List.replicate t.args Operator.number ++ rest ->
        rest.head? ≠ some Operator.number ->
        post () (t.discarded t.args rest)) fail bad s) :
    wp discardArgs post fail bad s := by
  simp only [discardArgs, wp_bind, wp_get]
  refine wp_call hdone ?_
  intro _ t ht
  obtain ⟨rest, hops, hrest⟩ := args_split t
  exact (wp_discardArgsLoop hops ht.1).mpr (ht.2 rest hops hrest)

theorem wp_popArgs {k : Nat} {rest : List Operator}
    {post : List TecoInt -> Expressions -> Prop}
    (h : s.operators = List.replicate k Operator.number ++ rest)
    (hnum : k <= s.numbers.length) :
    wp (popArgs k) post fail bad s <->
      post (s.numbers.take k).reverse
        { s with operators := rest, numbers := s.numbers.drop k } := by
  induction k generalizing s post with
  | zero =>
      have hops : s.operators = rest := by simpa using h
      simp [popArgs, <- hops]
  | succ k ih =>
      rw [List.replicate_succ, List.cons_append] at h
      cases hnums : s.numbers with
      | nil => simp [hnums] at hnum
      | cons n ns =>
          have hle : k <= ns.length := by
            simpa [hnums] using hnum
          simp only [popArgs, wp_bind]
          rw [wp_popNum h, ih rfl (by simpa [hnums] using hle)]
          simp [hnums]

theorem wp_pushArgs_of_invariant (inv : Expressions -> Prop)
    {ns : List TecoInt} (hinv : inv s)
    (hpush : forall t n, inv t -> inv (t.pushed n)) :
    wp (pushArgs ns) (fun _ t => inv t) fail bad s := by
  induction ns generalizing s with
  | nil => simpa [pushArgs] using hinv
  | cons n ns ih =>
      simp only [pushArgs, wp_bind, wp_pushInt]
      exact ih (hpush s n hinv)

/-! ## The sign -/

theorem pushed_sign {n : TecoInt} (h : 0 ≤ s.numSign) :
    0 ≤ (s.pushed n).numSign := by
  change 0 ≤ (if s.numSign < 0 then 1 else s.numSign)
  rw [if_neg (Int.not_lt.mpr h)]
  exact h

theorem calcTop_sign (h : 0 ≤ s.numSign) :
    wp calcTop (fun _ t => 0 ≤ t.numSign) (fun _ _ => True) (fun _ => True)
      s := by
  rcases top_cases s.operators with
    hops | hops | ⟨op, rest, hops, hleft⟩ | ⟨op, rest, hops, hop⟩ |
    ⟨bop, rest, hops⟩
  · rw [wp_calcTop_noRight
      (by simpa [peekOp, List.head?_eq_getElem?] using hops)]
    trivial
  · rw [wp_calcTop_single hops]
    trivial
  · rw [wp_calcTop_noLeft hops hleft]
    trivial
  · rw [wp_calcTop_notReached hops hop]
    trivial
  · rw [wp_calcTop_real hops]
    split
    · exact pushed_sign h
    · trivial
    · trivial

theorem pushCalc_sign {op : BinaryOp} (h : 0 ≤ s.numSign) :
    wp (pushCalc op) (fun _ t => 0 ≤ t.numSign) (fun _ _ => True)
      (fun _ => True) s :=
  wp_pushCalc_of_invariant (fun t => 0 ≤ t.numSign) h
    (fun _ ht _ => calcTop_sign ht) (fun _ ht _ => ht)

end Expressions
end SciTECO
