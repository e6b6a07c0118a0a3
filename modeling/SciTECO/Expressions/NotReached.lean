import SciTECO.Expressions.Shape

/-!
# Which operators are resolved

`teco_expressions_calc()` expects an operator between two arguments.  It finds
an argument there instead when an operator that has three arguments above it is
resolved, which the source excludes by an assertion.  Nothing else makes the
assertions of `expressions.c` fail.
-/

namespace SciTECO
namespace Expressions

open Undoable

/-- An operator whose precedence is at least `p` is resolved while it has three
arguments above it.  The operators above it are resolved first. -/
inductive Crowded (p : Nat) : List Operator -> Prop where
  | here {x : Operator} {vals rest : List Operator} {op : BinaryOp}
      (hx : x.isArgument = true)
      (hvals : forall v, v ∈ vals -> v.isArgument = true)
      (hp : p <= (Operator.real op).precedence) :
      Crowded p (Operator.number :: x :: Operator.number ::
        (vals ++ Operator.real op :: rest))
  | next {rest : List Operator} {op : BinaryOp}
      (hp : p <= (Operator.real op).precedence)
      (h : Crowded p (Operator.number :: dropNew rest)) :
      Crowded p (Operator.number :: Operator.real op ::
        Operator.number :: rest)

theorem crowded_head {p : Nat} {ops : List Operator} (h : Crowded p ops) :
    ops.head? = some Operator.number := by
  cases h <;> rfl

theorem not_crowded_of_head {p : Nat} {ops : List Operator} {op : Operator}
    (hhead : ops.head? = some op) (hop : op ≠ Operator.number) :
    ¬ Crowded p ops := by
  intro h
  rw [crowded_head h] at hhead
  exact hop (Option.some.inj hhead).symm

theorem applyOp_fault {op : BinaryOp} {vleft vright : TecoInt} {c : Fault}
    (h : applyOp op vleft vright = .error (.fault c)) :
    c = Fault.arithmeticTrap := by
  cases op <;> simp only [applyOp, division] at h
  case pow => split at h <;> (try split at h) <;> (try split at h) <;> cases h
  case div =>
    split at h
    · cases h
    · split at h <;> cases h
      rfl
  case mod =>
    split at h
    · cases h
    · split at h <;> cases h
      rfl
  all_goals cases h

/-- The only way in which a call crashes: an integer division traps. -/
def TrapsOnly (c : Fault) : Prop := c = Fault.arithmeticTrap

/-!
## Evaluation
-/

/-- Resolving an operator that is not crowded. -/
theorem calcTop_uncrowded {p : Nat} {s : Expressions}
    {vals rest : List Operator} {top : BinaryOp}
    (hcrowded : ¬ Crowded p s.operators)
    (hops : s.operators = vals ++ Operator.real top :: rest)
    (hvals : forall v, v ∈ vals -> v.isArgument = true)
    (hp : p <= (Operator.real top).precedence) :
    wp calcTop (fun _ t => ¬ Crowded p t.operators) (fun _ _ => True)
      TrapsOnly s := by
  rcases top_cases s.operators with
    h | h | ⟨op, below, h, hleft⟩ | ⟨op, below, h, hop⟩ | ⟨bop, below, h⟩
  · rw [wp_calcTop_noRight (by simpa [peekOp, List.head?_eq_getElem?] using h)]
    trivial
  · rw [wp_calcTop_single h]
    trivial
  · rw [wp_calcTop_noLeft h hleft]
    trivial
  · exfalso
    rw [h] at hops hcrowded
    rcases vals with _ | ⟨v, _ | ⟨v', _ | ⟨v'', vals⟩⟩⟩
    · cases hops
    · simp only [List.cons_append, List.nil_append,
        List.cons.injEq] at hops
      exact hop top hops.2.1
    · simp at hops
    · simp only [List.cons_append, List.cons.injEq] at hops
      obtain ⟨rfl, rfl, rfl, rfl⟩ := hops
      refine hcrowded (Crowded.here (hvals op (by simp)) ?_ hp)
      intro w hw
      exact hvals w (by simp [hw])
  · have hbop : p <= (Operator.real bop).precedence := by
      rw [h] at hops
      rcases vals with _ | ⟨v, _ | ⟨v', vals⟩⟩
      · cases hops
      · simp only [List.cons_append, List.nil_append,
          List.cons.injEq, Operator.real.injEq] at hops
        rw [hops.2.1]
        exact hp
      · simp only [List.cons_append, List.cons.injEq] at hops
        have hv' := hvals v' (by simp)
        simp [<- hops.2.1] at hv'
    rw [wp_calcTop_real h]
    split
    · intro hnext
      rw [h] at hcrowded
      exact hcrowded (Crowded.next hbop hnext)
    · trivial
    · rename_i hfault
      exact applyOp_fault hfault

theorem eval_uncrowded {s : Expressions} (h : ¬ Crowded 0 s.operators) :
    wp (eval false) (fun _ _ => True) (fun _ _ => True) TrapsOnly s := by
  refine wp_eval_of_invariant (fun t => ¬ Crowded 0 t.operators) h ?_
    (fun _ _ _ => trivial)
  rintro t ht ⟨vals, op, rest, hops, hvals, _⟩
  exact calcTop_uncrowded ht hops hvals (Nat.zero_le _)

theorem pushCalc_uncrowded {s : Expressions} {op : BinaryOp}
    (h : ¬ Crowded (Operator.real op).precedence s.operators) :
    wp (pushCalc op) (fun _ _ => True) (fun _ _ => True) TrapsOnly s := by
  refine wp_pushCalc_of_invariant
    (fun t => ¬ Crowded (Operator.real op).precedence t.operators) h ?_
    (fun _ _ _ => trivial)
  rintro t ht ⟨vals, top, rest, hops, hvals, hge⟩
  exact calcTop_uncrowded ht hops hvals hge

theorem discardArgs_uncrowded {s : Expressions}
    (h : ¬ Crowded 0 s.operators) :
    wp discardArgs (fun _ d => Discards s d) (fun _ _ => True)
      TrapsOnly s := by
  have hsafe : wp discardArgs (fun _ _ => True) (fun _ _ => True)
      TrapsOnly s := by
    refine wp_discardArgs
      (wp_call_and (eval_uncrowded h) (eval_evaluates s) ?_)
    intro _ t _ ht
    exact ⟨ht.2, fun _ _ _ => trivial⟩
  exact wp_call_and hsafe (discardArgs_discards s) (fun _ _ _ hd => hd)

theorem eval_true_uncrowded {s : Expressions}
    (h : ¬ Crowded 0 s.operators) :
    wp (eval true) (fun _ _ => True) (fun _ _ => True) TrapsOnly s := by
  rw [wp_eval_true]
  exact eval_uncrowded h

/-!
## Closing several levels
-/

/-- A crowded operator is resolved while `levels` braces are closed in turn. -/
def CrowdedClose : Nat -> List Operator -> Prop
  | 0, _ => False
  | levels + 1, ops =>
      Crowded 0 ops ∨
        (forall op, ops.head? ≠ some (Operator.real op)) ∧
        ops.head? ≠ some Operator.new ∧
        CrowdedClose levels (belowBrace ops).tail

theorem crowdedClose_next {levels : Nat} {ops next : List Operator}
    (hnext : NextLevel ops next) (h : ¬ CrowdedClose (levels + 1) ops) :
    ¬ CrowdedClose levels next := by
  have hhead : forall op, next.head? = some op -> op ≠ Operator.number ->
      (op = Operator.new ∨ exists bop, op = Operator.real bop) ->
      ¬ CrowdedClose levels next := by
    intro op hop hnumber hkind hclose
    cases levels with
    | zero => exact hclose
    | succ levels =>
        rcases hclose with hcrowded | ⟨hreal, hnew, _⟩
        · exact not_crowded_of_head hop hnumber hcrowded
        · rcases hkind with rfl | ⟨bop, rfl⟩
          · exact hnew hop
          · exact hreal bop hop
  cases hnext with
  | dangling hreal => exact hhead _ hreal (by simp) (Or.inr ⟨_, rfl⟩)
  | closed hreal hnew => exact fun hclose => h (Or.inr ⟨hreal, hnew, hclose⟩)
  | comma hreal hnew => exact hhead _ hnew (by simp) (Or.inl rfl)

theorem braceReturnLoop_uncrowded {levels : Nat} {s : Expressions}
    (h : ¬ CrowdedClose levels s.operators) :
    wp (braceReturnLoop levels) (fun _ _ => True) (fun _ _ => True)
      TrapsOnly s := by
  induction levels generalizing s with
  | zero => trivial
  | succ levels ih =>
      have hcrowded : ¬ Crowded 0 s.operators := fun hc => h (Or.inl hc)
      simp only [braceReturnLoop, wp_bind, wp_get, wp_setBraceLevel]
      refine wp_call (discardArgs_uncrowded hcrowded) ?_
      intro _ d hd
      rw [wp_eval_true_resolved hd.resolved]
      exact ih (crowdedClose_next hd.nextLevel h)

theorem popArgs_safe {k : Nat} {s : Expressions} {rest : List Operator}
    (hops : s.operators = List.replicate k Operator.number ++ rest) :
    wp (popArgs k)
      (fun _ t => t.operators = rest ∧ t.braceLevel = s.braceLevel)
      (fun _ _ => True) TrapsOnly s := by
  induction k generalizing s with
  | zero => exact ⟨by simpa using hops, rfl⟩
  | succ k ih =>
      rw [List.replicate_succ, List.cons_append] at hops
      simp only [popArgs, wp_bind]
      rw [wp_popNum hops]
      exact wp_call (ih rfl) (fun _ _ ht => ht)

theorem popNum_safe {s : Expressions} (hargs : s.args > 0) :
    wp (popNum 0) (fun _ _ => True) (fun _ _ => True) TrapsOnly s := by
  obtain ⟨rest, hops, _⟩ := args_split s
  obtain ⟨k, hk⟩ := Nat.exists_eq_succ_of_ne_zero (Nat.ne_of_gt hargs)
  rw [hk, List.replicate_succ, List.cons_append] at hops
  rw [wp_popNum hops]
  trivial

theorem popNumCalc_uncrowded {s : Expressions} (imply : TecoInt)
    (h : ¬ Crowded 0 s.operators) :
    wp (popNumCalc imply) (fun _ _ => True) (fun _ _ => True)
      TrapsOnly s := by
  have hpop : forall t : Expressions,
      wp (if t.args > 0 then popNum 0 else pure imply)
        (fun _ _ => True) (fun _ _ => True) TrapsOnly t := by
    intro t
    rw [wp_ite]
    split
    · rename_i hargs
      exact popNum_safe hargs
    · trivial
  simp only [popNumCalc, wp_bind]
  refine wp_call (eval_uncrowded h) ?_
  intro _ u _
  simp only [wp_get, wp_ite]
  split
  · rw [wp_bind, wp_setNumSign, wp_bind, wp_get]
    exact hpop _
  · rw [wp_bind, wp_get]
    exact hpop _

/-!
## The calls
-/

/-- A call resolves a crowded operator. -/
def Call.ResolvesCrowded : Call -> Expressions -> Prop
  | .pushCalc op, s => Crowded (Operator.real op).precedence s.operators
  | .eval, s => Crowded 0 s.operators
  | .popNumCalc _, s => Crowded 0 s.operators
  | .discardArgs, s => Crowded 0 s.operators
  | .braceClose, s => s.braceLevel ≠ 0 ∧ Crowded 0 s.operators
  | .braceReturn keepBraces fetch, s =>
      CrowdedClose (s.braceLevel - keepBraces)
        (s.operators.drop (fetch.count s.args))
  | _, _ => False

theorem Call.run_uncrowded (c : Call) (s : Expressions)
    (h : ¬ c.ResolvesCrowded s) :
    wp c.run (fun _ _ => True) (fun _ _ => True) TrapsOnly s := by
  cases c with
  | pushInt n =>
      simp only [Call.run, wp_pushInt]
  | pushNew =>
      simp only [Call.run, wp_pushOp]
  | pushCalc op => exact pushCalc_uncrowded h
  | addDigit radix digit =>
      simp only [Call.run, Expressions.addDigit, wp_bind, wp_get, wp_ite, wp_pushInt]
      split
      · rename_i hargs
        exact wp_call (popNum_safe hargs) (fun _ _ _ => trivial)
      · trivial
  | setNumSign sign =>
      simp only [Call.run, wp_setNumSign]
  | eval => exact eval_uncrowded h
  | popArgs fetch =>
      simp only [Call.run, wp_bind, wp_get]
      exact wp_call (popArgs_safe (fetch_split fetch s))
        (fun _ _ _ => trivial)
  | popNumCalc imply =>
      simp only [Call.run, wp_bind]
      exact wp_call (popNumCalc_uncrowded imply h) (fun _ _ _ => trivial)
  | discardArgs =>
      exact wp_call (discardArgs_uncrowded h) (fun _ _ _ => trivial)
  | braceOpen =>
      simp only [Call.run, Expressions.braceOpen, wp_bind, wp_popNew, wp_pushOp,
        wp_undoBraceLevel, wp_get, wp_setBraceLevel]
  | braceClose =>
      simp only [Call.run, Expressions.braceClose, wp_bind, wp_get, wp_ite, wp_throw,
        wp_undoBraceLevel, wp_setBraceLevel]
      split
      · trivial
      · rename_i hlevel
        exact eval_true_uncrowded (fun hc => h ⟨hlevel, hc⟩)
  | braceReturn keepBraces fetch =>
      simp only [Call.run, Expressions.braceReturn, wp_bind, wp_get, wp_undoBraceLevel]
      refine wp_call (popArgs_safe (fetch_split fetch s)) ?_
      rintro ns t ⟨htops, htlevel⟩
      rw [htlevel]
      have huncrowded : ¬ CrowdedClose (s.braceLevel - keepBraces)
          t.operators := by
        rw [htops]
        exact h
      refine wp_call (braceReturnLoop_uncrowded huncrowded) ?_
      intro _ u _
      exact wp_pushArgs_of_invariant (fun _ => True) trivial
        (fun _ _ _ => trivial)
  | clear => trivial

/-- The calls of a command line or macro, up to the first error. -/
def runCalls : List Call -> Exec Expressions Unit
  | [] => pure ()
  | c :: cs => do
      c.run
      runCalls cs

/-- No call of the run resolves a crowded operator. -/
def UncrowdedRun : List Call -> Expressions -> Prop
  | [], _ => True
  | c :: cs, s => ¬ c.ResolvesCrowded s ∧
      match c.run s with
      | .ok _ t _ => UncrowdedRun cs t
      | _ => True

theorem runCalls_uncrowded {cs : List Call} {s : Expressions}
    (h : UncrowdedRun cs s) :
    wp (runCalls cs) (fun _ _ => True) (fun _ _ => True) TrapsOnly s := by
  induction cs generalizing s with
  | nil => trivial
  | cons c cs ih =>
      have hcall := c.run_uncrowded s h.1
      have hrest := h.2
      simp only [runCalls, wp_bind]
      unfold wp at hcall ⊢
      cases hrun : c.run s with
      | ok a t tokens =>
          rw [hrun] at hrest
          exact ih hrest
      | error e t tokens => trivial
      | fault cause =>
          rw [hrun] at hcall
          exact hcall

/-- In a run that resolves no crowded operator, the default case of
`teco_expressions_calc()` is not executed and the assertion of
`teco_expressions_pop_num()` does not fail.  The run may start in any state,
also in one that an error has left behind. -/
theorem runCalls_no_assertion (cs : List Call) (s : Expressions)
    (h : UncrowdedRun cs s) :
    runCalls cs s ≠ .fault Fault.assertNotReached ∧
      runCalls cs s ≠ .fault Fault.assertion := by
  have hsafe := runCalls_uncrowded h
  constructor
  · intro hrun
    exact absurd (wp_of_fault hsafe hrun) (by simp [TrapsOnly])
  · intro hrun
    exact absurd (wp_of_fault hsafe hrun) (by simp [TrapsOnly])

/-- In the run of `1+(2,3)=` an operand is missing, which is an error. -/
theorem runCalls_no_assertion_pair :
    runCalls
        [.pushInt 1, .pushCalc BinaryOp.add, .braceOpen, .pushInt 2, .eval,
          .pushNew, .pushInt 3, .braceClose, .eval] initial ≠
        .fault Fault.assertNotReached ∧
      runCalls
        [.pushInt 1, .pushCalc BinaryOp.add, .braceOpen, .pushInt 2, .eval,
          .pushNew, .pushInt 3, .braceClose, .eval] initial ≠
        .fault Fault.assertion := by
  refine runCalls_no_assertion _ _
    ⟨nofun, ?_, nofun, nofun, ?_, nofun, nofun, ?_, ?_, trivial⟩
  · nofun
  · nofun
  · rintro ⟨_, h⟩
    cases h
  · nofun

/-- The run of `1+(2,3,4)=` asks for the operator between the arguments 3 and
4. -/
theorem runCalls_assertNotReached :
    runCalls
      [.pushInt 1, .pushCalc BinaryOp.add, .braceOpen, .pushInt 2, .eval,
        .pushNew, .pushInt 3, .eval, .pushNew, .pushInt 4, .braceClose,
        .eval] initial =
      .fault Fault.assertNotReached := by
  rfl

end Expressions
end SciTECO
