import SciTECO.Expressions.Shape

/-!
# The stacks are kept in step

The operator stack has a marker for every number and for every open brace.
This is kept by every call that returns success, except where a brace is
closed directly behind an operator: `teco_expressions_eval()` then returns
success without popping the brace.
-/

namespace SciTECO
namespace Expressions

open Undoable

/-- The operator stack has the markers of all numbers and of `level` braces. -/
structure Marked (level : Nat) (s : Expressions) : Prop where
  numbers : s.operators.count Operator.number = s.numbers.length
  braces : s.operators.count Operator.brace = level

/-- The representation invariant of the stacks. -/
def Balanced (s : Expressions) : Prop := Marked s.braceLevel s

theorem balanced_initial : Balanced initial := ⟨rfl, rfl⟩

theorem count_dropNew {op : Operator} (hop : op ≠ Operator.new)
    (ops : List Operator) : (dropNew ops).count op = ops.count op := by
  induction ops with
  | nil => rfl
  | cons top ops ih =>
      by_cases htop : top = Operator.new
      · subst htop
        rw [dropNew_new, ih, List.count_cons_of_ne (Ne.symm hop)]
      · rw [dropNew_cons ops htop]

theorem Marked.pushed {level : Nat} {s : Expressions} (h : Marked level s)
    (n : TecoInt) : Marked level (s.pushed n) := by
  constructor
  · simp [count_dropNew, h.numbers]
  · simp [count_dropNew, h.braces]

/-!
## Evaluation
-/

theorem popNum_marked {level : Nat} {s : Expressions} {rest : List Operator}
    (h : Marked level s) (hops : s.operators = Operator.number :: rest) :
    Marked level { s with operators := rest, numbers := s.numbers.tail } := by
  have hnum := h.numbers
  have hbrace := h.braces
  simp only [hops, List.count_cons_self, ne_eq, reduceCtorEq,
    not_false_eq_true, List.count_cons_of_ne] at hnum hbrace
  constructor
  · simp
    omega
  · exact hbrace

theorem calcTop_marked {level : Nat} {s : Expressions} (h : Marked level s) :
    wp calcTop (fun _ t => Marked level t) (fun _ _ => True)
      (fun _ => True) s := by
  rcases top_cases s.operators with
    hops | hops | ⟨op, rest, hops, hleft⟩ | ⟨op, rest, hops, hop⟩ |
    ⟨bop, rest, hops⟩
  · rw [wp_calcTop_noRight
      (by simpa [peekOp, List.head?_eq_getElem?] using hops)]
    trivial
  · rw [wp_calcTop_single hops]
    trivial
  · rw [wp_calcTop_noLeft hops hleft]
    trivial
  · rw [wp_calcTop_notReached hops hop]
    trivial
  · rw [wp_calcTop_real hops]
    have hnum := h.numbers
    have hbrace := h.braces
    simp only [hops, List.count_cons_self, ne_eq, reduceCtorEq,
      not_false_eq_true, List.count_cons_of_ne] at hnum hbrace
    have hdrop : Marked level (s.dropCalc rest) := by
      constructor
      · simp [dropCalc]
        omega
      · simpa [dropCalc] using hbrace
    split
    · exact hdrop.pushed _
    · trivial
    · trivial

theorem eval_marked {level : Nat} {s : Expressions} (h : Marked level s) :
    wp (eval false) (fun _ t => Marked level t) (fun _ _ => True)
      (fun _ => True) s :=
  wp_eval_of_invariant (Marked level) h (fun _ ht _ => calcTop_marked ht)
    (fun _ ht _ => ht)

theorem Marked.discarded {level : Nat} {s : Expressions} {k : Nat}
    {r : List Operator} (h : Marked level s)
    (hops : s.operators = List.replicate k Operator.number ++ r) :
    Marked level (s.discarded k r) := by
  have hnum := h.numbers
  have hbrace := h.braces
  simp only [hops, List.count_append, List.count_replicate_self] at hnum
  rw [hops, List.count_append, List.count_replicate] at hbrace
  constructor
  · simp [Expressions.discarded]
    omega
  · simpa [Expressions.discarded] using hbrace

theorem discardArgs_marked {level : Nat} {s : Expressions}
    (h : Marked level s) :
    wp discardArgs (fun _ d => Marked level d) (fun _ _ => True)
      (fun _ => True) s := by
  refine wp_discardArgs (wp_call_and (eval_marked h) (eval_evaluates s) ?_)
  rintro _ u hu ⟨_, hres⟩
  exact ⟨hres, fun r hops _ => hu.discarded hops⟩

theorem Marked.braceRemoved {level : Nat} {s : Expressions}
    {vals rest : List Operator} (h : Marked level s)
    (hops : s.operators = vals ++ Operator.brace :: rest)
    (hvals : forall v, v ∈ vals -> v.isArgument = true) :
    Marked (level - 1) s.braceRemoved := by
  have hnum := h.numbers
  have hbrace := h.braces
  rw [braceRemoved_eq hops hvals]
  simp only [hops, List.count_append, List.count_cons_self, ne_eq,
    reduceCtorEq, not_false_eq_true, List.count_cons_of_ne] at hnum hbrace
  constructor
  · simpa using hnum
  · simp
    omega

/-- Unless an operator is on the top, evaluation with `pop_brace` removes the
marker of one brace. -/
theorem eval_true_marked {level : Nat} {s : Expressions} (h : Marked level s)
    (hlevel : 0 < level)
    (htop : forall op, s.operators.head? ≠ some (Operator.real op)) :
    wp (eval true) (fun _ t => Marked (level - 1) t) (fun _ _ => True)
      (fun _ => True) s := by
  rw [wp_eval_true]
  refine wp_call_and (eval_marked h) (eval_evaluates s) ?_
  rintro _ t ht ⟨hevals, hres⟩
  have hcount := ht.braces
  generalize hops : t.operators = ops at hres
  cases hres with
  | empty hvals =>
      have hmem : Operator.brace ∈ ops := by
        rw [hops] at hcount
        exact List.count_pos_iff.mp (by omega)
      simpa using hvals _ hmem
  | brace hvals => exact ht.braceRemoved hops hvals
  | @dangling op rest =>
      rcases hevals.top with hts | ⟨_, hnumber⟩
      · rw [hts] at hops
        exact absurd (by simp [hops]) (htop op)
      · simp [hops] at hnumber

theorem pushCalc_marked {level : Nat} {s : Expressions} (op : BinaryOp)
    (h : Marked level s) :
    wp (pushCalc op)
      (fun _ t => Marked level t ∧ t.braceLevel = s.braceLevel)
      (fun _ _ => True) (fun _ => True) s := by
  refine wp_pushCalc_of_invariant
    (fun t => Marked level t ∧ Evaluates s t) ⟨h, Evaluates.refl s⟩ ?_ ?_
  · rintro t ⟨ht, hevals⟩ _
    exact wp_call_and (calcTop_marked ht) hevals.calcTop
      (fun _ _ ht' hevals' => ⟨ht', hevals'⟩)
  · rintro t ⟨ht, hevals⟩ _
    exact ⟨⟨by simpa using ht.numbers, by simpa using ht.braces⟩,
      hevals.braceLevel⟩

/-!
## Closing braces
-/

/-- An operator waits directly behind the closing brace, with nothing to be its
right operand.  `levels` braces are closed in turn, and every one of them
discards its arguments; a comma that is still open stays on the top and hides
the operators below it. -/
def danglingClose : Nat -> List Operator -> Bool
  | 0, _ => false
  | levels + 1, ops =>
      match ops.head? with
      | some (Operator.real _) => true
      | some Operator.new => false
      | _ => danglingClose levels (belowBrace ops).tail

theorem danglingClose_new {ops : List Operator} (levels : Nat)
    (h : ops.head? = some Operator.new) :
    danglingClose levels ops = false := by
  cases levels <;> simp [danglingClose, h]

theorem danglingClose_next {levels : Nat} {ops next : List Operator}
    (hnext : NextLevel ops next)
    (h : danglingClose (levels + 1) ops = false) :
    danglingClose levels next = false := by
  cases hnext with
  | dangling hreal => simp [danglingClose, hreal] at h
  | closed hreal hnew =>
      rw [danglingClose] at h
      split at h
      · cases h
      · rename_i hhead
        exact absurd hhead hnew
      · exact h
  | comma hreal hnew => exact danglingClose_new levels hnew

theorem danglingClose_head {levels : Nat} {ops : List Operator}
    (h : danglingClose (levels + 1) ops = false) (op : BinaryOp) :
    ops.head? ≠ some (Operator.real op) := by
  intro hop
  simp [danglingClose, hop] at h

/-- One round of `teco_expressions_brace_return()`. -/
theorem closeLevel_marked {level : Nat} {s : Expressions}
    (h : Marked level s) (hlevel : 0 < level)
    (htop : forall op, s.operators.head? ≠ some (Operator.real op)) :
    wp discardArgs
      (fun _ d => wp (eval true) (fun _ t => Marked (level - 1) t)
        (fun _ _ => True) (fun _ => True) d)
      (fun _ _ => True) (fun _ => True) s := by
  refine wp_call_and (discardArgs_marked h) (discardArgs_discards s) ?_
  intro _ d hd hdiscards
  refine eval_true_marked hd hlevel ?_
  intro op hop
  rw [hdiscards.dangling op (Or.inr hop)] at hop
  exact htop op hop

theorem braceReturnLoop_balanced {levels : Nat} {s : Expressions}
    (h : Balanced s) (hlevel : levels <= s.braceLevel)
    (hclose : danglingClose levels s.operators = false) :
    wp (braceReturnLoop levels) (fun _ t => Balanced t) (fun _ _ => True)
      (fun _ => True) s := by
  induction levels generalizing s with
  | zero => simpa [braceReturnLoop] using h
  | succ levels ih =>
      simp only [braceReturnLoop, wp_bind, wp_get, wp_setBraceLevel]
      refine wp_call_and (closeLevel_marked h (by omega)
        (danglingClose_head hclose)) (closeLevel_next s) ?_
      intro _ d hmarked hnext
      refine wp_call_and hmarked hnext ?_
      rintro _ t ht ⟨htnext, htlevel⟩
      have hbal : Balanced { t with braceLevel := t.braceLevel - 1 } := by
        rw [htlevel]
        exact ⟨ht.numbers, ht.braces⟩
      refine ih hbal (by simp; omega) ?_
      exact danglingClose_next htnext hclose

/-!
## The calls
-/

theorem popArgs_marked {level k : Nat} {s : Expressions}
    {rest : List Operator} (h : Marked level s)
    (hops : s.operators = List.replicate k Operator.number ++ rest) :
    wp (popArgs k)
      (fun _ t => Marked level t ∧ t.braceLevel = s.braceLevel ∧
        t.operators = rest)
      (fun _ _ => True) (fun _ => True) s := by
  have hle : k <= s.numbers.length := by
    have hnum := h.numbers
    simp only [hops, List.count_append, List.count_replicate_self] at hnum
    omega
  rw [wp_popArgs hops hle]
  have hd := h.discarded hops
  exact ⟨⟨hd.numbers, hd.braces⟩, rfl, rfl⟩

theorem braceReturn_balanced {s : Expressions} (keepBraces : Nat)
    (fetch : Fetch) (h : Balanced s)
    (hclose : danglingClose (s.braceLevel - keepBraces)
      (s.operators.drop (fetch.count s.args)) = false) :
    wp (braceReturn keepBraces (fetch.count s.args))
      (fun _ t => Balanced t) (fun _ _ => True) (fun _ => True) s := by
  simp only [braceReturn, wp_bind, wp_undoBraceLevel, wp_get]
  refine wp_call (popArgs_marked h (fetch_split fetch s)) ?_
  rintro ns t ⟨hmarked, htlevel, htops⟩
  have hbal : Balanced t := by
    rw [Balanced, htlevel]
    exact hmarked
  rw [htlevel]
  refine wp_call (braceReturnLoop_balanced hbal (by omega)
    (by rwa [htops])) ?_
  intro _ u hu
  exact wp_pushArgs_of_invariant Balanced hu (fun _ n hv => hv.pushed n)

theorem eval_balanced {s : Expressions} (h : Balanced s) :
    wp (eval false) (fun _ t => Balanced t) (fun _ _ => True)
      (fun _ => True) s := by
  refine wp_call_and (eval_marked h) (eval_evaluates s) ?_
  rintro _ t ht ⟨hevals, _⟩
  rw [Balanced, hevals.braceLevel]
  exact ht

theorem eval_true_braceLevel (s : Expressions) :
    wp (eval true) (fun _ t => t.braceLevel = s.braceLevel)
      (fun _ _ => True) (fun _ => True) s := by
  rw [wp_eval_true]
  refine wp_call (eval_evaluates s) ?_
  rintro _ t ⟨hevals, _⟩
  rw [braceRemoved_braceLevel, hevals.braceLevel]

theorem braceClose_balanced {s : Expressions} (h : Balanced s)
    (hclose : danglingClose 1 s.operators = false) :
    wp braceClose (fun _ t => Balanced t) (fun _ _ => True)
      (fun _ => True) s := by
  simp only [braceClose, wp_bind, wp_get, wp_ite, wp_throw,
    wp_undoBraceLevel, wp_setBraceLevel]
  by_cases hlevel : s.braceLevel = 0
  · simp [hlevel]
  · simp only [hlevel, if_false]
    have hmarked : Marked s.braceLevel
        { s with braceLevel := s.braceLevel - 1 } :=
      ⟨h.numbers, h.braces⟩
    refine wp_call_and (eval_true_marked hmarked (by omega)
      (danglingClose_head hclose)) (eval_true_braceLevel _) ?_
    intro _ t ht htlevel
    rw [Balanced, htlevel]
    exact ht

theorem braceOpen_balanced {s : Expressions} (h : Balanced s) :
    wp braceOpen (fun _ t => Balanced t) (fun _ _ => True)
      (fun _ => True) s := by
  simp only [braceOpen, wp_bind, wp_popNew, wp_pushOp, wp_undoBraceLevel,
    wp_get, wp_setBraceLevel]
  constructor
  · simpa [count_dropNew] using h.numbers
  · simpa [count_dropNew] using h.braces

theorem popNumCalc_balanced {s : Expressions} (imply : TecoInt)
    (h : Balanced s) :
    wp (popNumCalc imply) (fun _ t => Balanced t) (fun _ _ => True)
      (fun _ => True) s := by
  simp only [popNumCalc, wp_bind]
  refine wp_call (eval_balanced h) ?_
  intro _ u hu
  have hbal : forall sign, Balanced { u with numSign := sign } :=
    fun sign => ⟨hu.numbers, hu.braces⟩
  have hpop : forall v : Expressions, Balanced v ->
      wp (if v.args > 0 then popNum 0 else pure imply)
        (fun _ t => Balanced t) (fun _ _ => True) (fun _ => True) v := by
    intro v hv
    rw [wp_ite]
    split
    · rename_i hargs
      obtain ⟨rest, hops, _⟩ := args_split v
      obtain ⟨k, hk⟩ := Nat.exists_eq_succ_of_ne_zero (Nat.ne_of_gt hargs)
      rw [hk, List.replicate_succ, List.cons_append] at hops
      rw [wp_popNum hops]
      exact popNum_marked hv hops
    · exact hv
  simp only [wp_get, wp_ite]
  split
  · rw [wp_bind, wp_setNumSign, wp_bind, wp_get]
    exact hpop _ (hbal 1)
  · rw [wp_bind, wp_get]
    exact hpop _ (hbal u.numSign)

theorem addDigit_balanced {s : Expressions} (radix : TecoInt) (digit : Nat)
    (h : Balanced s) :
    wp (addDigit radix digit) (fun _ t => Balanced t) (fun _ _ => True)
      (fun _ => True) s := by
  simp only [addDigit, wp_bind, wp_get, wp_ite, wp_pushInt]
  split
  · rename_i hargs
    obtain ⟨rest, hops, _⟩ := args_split s
    obtain ⟨k, hk⟩ := Nat.exists_eq_succ_of_ne_zero (Nat.ne_of_gt hargs)
    rw [hk, List.replicate_succ, List.cons_append] at hops
    rw [wp_popNum hops]
    exact (popNum_marked h hops).pushed _
  · exact h.pushed _

/-- Where a call closes braces, no operator waits directly behind them. -/
def Call.ClosesCleanly : Call -> Expressions -> Prop
  | .braceClose, s => danglingClose 1 s.operators = false
  | .braceReturn keepBraces fetch, s =>
      danglingClose (s.braceLevel - keepBraces)
        (s.operators.drop (fetch.count s.args)) = false
  | _, _ => True

theorem Call.run_balanced (c : Call) (s : Expressions) (h : Balanced s)
    (hclose : c.ClosesCleanly s) :
    wp c.run (fun _ t => Balanced t) (fun _ _ => True)
      (fun _ => True) s := by
  cases c with
  | pushInt n =>
      simp only [Call.run, wp_pushInt]
      exact h.pushed n
  | pushNew =>
      simp only [Call.run, wp_pushOp]
      exact ⟨by simpa using h.numbers, by simpa using h.braces⟩
  | pushCalc op =>
      refine wp_call (pushCalc_marked op h) ?_
      rintro _ t ⟨ht, hlevel⟩
      rw [Balanced, hlevel]
      exact ht
  | addDigit radix digit => exact addDigit_balanced radix digit h
  | setNumSign sign =>
      simp only [Call.run, wp_setNumSign]
      exact ⟨h.numbers, h.braces⟩
  | eval => exact eval_balanced h
  | popArgs fetch =>
      simp only [Call.run, wp_bind, wp_get]
      refine wp_call (popArgs_marked h (fetch_split fetch s)) ?_
      rintro _ t ⟨ht, hlevel, _⟩
      rw [wp_pure, Balanced, hlevel]
      exact ht
  | popNumCalc imply =>
      simp only [Call.run, wp_bind]
      exact wp_call (popNumCalc_balanced imply h) (fun _ _ ht => ht)
  | discardArgs =>
      refine wp_call_and (discardArgs_marked h) (discardArgs_discards s) ?_
      intro _ t ht hdiscards
      rw [Balanced, hdiscards.braceLevel]
      exact ht
  | braceOpen => exact braceOpen_balanced h
  | braceClose => exact braceClose_balanced h hclose
  | braceReturn keepBraces fetch =>
      simp only [Call.run, wp_bind, wp_get]
      exact braceReturn_balanced keepBraces fetch h hclose
  | clear => exact ⟨rfl, rfl⟩

/-- In every run whose calls close braces cleanly, the stacks stay in step. -/
theorem reachable_balanced {s : Expressions}
    (h : Reachable Call.ClosesCleanly s) : Balanced s :=
  h.invariant balanced_initial Call.run_balanced

/-- The run of `(1+2)`. -/
theorem reachable_balanced_sum :
    Balanced
      { numbers := [3], operators := [Operator.number], numSign := 1,
        braceLevel := 0 } :=
  reachable_balanced
    (((((Relation.ReflTransGen.refl.tail
      ⟨.braceOpen, _, trivial, rfl⟩).tail
      ⟨.pushInt 1, _, trivial, rfl⟩).tail
      ⟨.pushCalc BinaryOp.add, _, trivial, rfl⟩).tail
      ⟨.pushInt 2, _, trivial, rfl⟩).tail
      ⟨.braceClose, _, by rfl, rfl⟩)

/-- The run of `(1+)` leaves the brace on the operator stack. -/
theorem reachable_unbalanced :
    exists s, Reachable (fun _ _ => True) s ∧ ¬ Balanced s := by
  refine ⟨{ numbers := [1], operators := [Operator.real BinaryOp.add,
      Operator.number, Operator.brace], numSign := 1, braceLevel := 0 },
    ?_, ?_⟩
  · exact (((Relation.ReflTransGen.refl.tail
      ⟨.braceOpen, _, trivial, rfl⟩).tail
      ⟨.pushInt 1, _, trivial, rfl⟩).tail
      ⟨.pushCalc BinaryOp.add, _, trivial, rfl⟩).tail
      ⟨.braceClose, _, trivial, rfl⟩
  · intro h
    have := h.braces
    simp at this

end Expressions
end SciTECO
