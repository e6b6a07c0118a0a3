import Mathlib.Data.List.Chain
import SciTECO.Expressions.Shape

/-!
# Open commas

The marker of a comma is removed before a number or a brace is pushed on it.
What is on the top of such a marker is another one, or an operator.
-/

namespace SciTECO
namespace Expressions

open Undoable

/-- What may be on the top of another entry. -/
def MayCover (upper lower : Operator) : Prop :=
  lower = Operator.new -> upper ≠ Operator.number ∧ upper ≠ Operator.brace

/-- No number and no brace is directly on a comma. -/
def Separated (s : Expressions) : Prop := s.operators.IsChain MayCover

variable {s : Expressions}

theorem separated_initial : Separated initial := List.isChain_nil

theorem separated_drop {ops rest : List Operator} (upper : List Operator)
    (h : List.IsChain MayCover ops) (hops : ops = upper ++ rest) :
    List.IsChain MayCover rest := by
  rw [hops] at h
  exact h.right_of_append

theorem head_dropNew (ops : List Operator) :
    (dropNew ops).head? ≠ some Operator.new := by
  induction ops with
  | nil => simp
  | cons op ops ih =>
      by_cases hop : op = Operator.new
      · subst hop
        exact ih
      · rw [dropNew_cons _ hop]
        simpa using hop

/-- An entry on the top of a stack without an open comma. -/
theorem separated_cons {op : Operator} {ops : List Operator}
    (h : List.IsChain MayCover ops)
    (hhead : ops.head? ≠ some Operator.new) :
    List.IsChain MayCover (op :: ops) := by
  rw [List.isChain_cons]
  constructor
  · intro lower hlower hnew
    rw [hnew] at hlower
    exact absurd hlower hhead
  · exact h

/-- An operator or another comma. -/
theorem separated_cons_marker {op : Operator} {ops : List Operator}
    (h : List.IsChain MayCover ops) (hnumber : op ≠ Operator.number)
    (hbrace : op ≠ Operator.brace) :
    List.IsChain MayCover (op :: ops) := by
  rw [List.isChain_cons]
  constructor
  · intro lower _ _
    exact ⟨hnumber, hbrace⟩
  · exact h

theorem separated_dropNew {ops : List Operator}
    (h : List.IsChain MayCover ops) : List.IsChain MayCover (dropNew ops) :=
  separated_drop (ops.takeWhile (fun op => op == Operator.new)) h
    List.takeWhile_append_dropWhile.symm

theorem Separated.pushed (h : Separated s) (n : TecoInt) :
    Separated (s.pushed n) :=
  separated_cons (separated_dropNew h) (head_dropNew _)

theorem Separated.calcTop (h : Separated s) :
    wp calcTop (fun _ t => Separated t) (fun _ _ => True)
      (fun _ => True) s := by
  rcases top_cases s.operators with
    hops | hops | ⟨op, rest, hops, hleft⟩ | ⟨op, rest, hops, hop⟩ |
    ⟨bop, rest, hops⟩
  · rw [wp_calcTop_noRight
      (by simpa [peekOp, List.head?_eq_getElem?] using hops)]
    trivial
  · rw [wp_calcTop_single hops]
    trivial
  · rw [wp_calcTop_noLeft hops hleft]
    trivial
  · rw [wp_calcTop_notReached hops hop]
    trivial
  · rw [wp_calcTop_real hops]
    have hrest : Separated (s.dropCalc rest) :=
      separated_drop [Operator.number, Operator.real bop, Operator.number]
        h hops
    split
    · exact hrest.pushed _
    · trivial
    · trivial

theorem Separated.eval (h : Separated s) :
    wp (eval false)
      (fun _ t => Separated t ∧ Resolved t.operators)
      (fun _ _ => True) (fun _ => True) s := by
  apply wp_eval_of_invariant Separated h
  · intro t ht _
    exact ht.calcTop
  · intro t ht hres
    exact ⟨ht, hres⟩

theorem Separated.discardArgs (h : Separated s) :
    wp discardArgs (fun _ t => Separated t) (fun _ _ => True)
      (fun _ => True) s := by
  apply wp_discardArgs
  apply wp_call h.eval
  intro _ t ht
  constructor
  · exact ht.2
  · intro rest hops _
    exact separated_drop _ ht.1 hops

theorem Separated.braceRemoved (h : Separated s) :
    Separated s.braceRemoved := by
  unfold Expressions.braceRemoved
  rcases split_arguments s.operators with
    hall | ⟨vals, op, rest, hops, hvals, hop⟩
  · rw [firstOp_eq_none hall]
    exact h
  · rw [firstOp_eq_some hops hvals hop]
    dsimp only
    rw [peekOp_append hops]
    by_cases hbrace : op = Operator.brace
    · subst hbrace
      rw [if_pos rfl]
      show List.IsChain MayCover (s.operators.eraseIdx vals.length)
      have hchain : List.IsChain MayCover (vals ++ Operator.brace :: rest) :=
        hops ▸ h
      rw [hops, List.eraseIdx_append_of_length_le (Nat.le_refl _),
        Nat.sub_self, List.eraseIdx_zero, List.tail_cons]
      have hlower := hchain.right_of_append
      rw [List.isChain_cons] at hlower
      rw [List.isChain_append]
      refine ⟨hchain.left_of_append, hlower.2, ?_⟩
      intro upper _ lower hhead hnew
      -- the brace is on no open comma
      exact absurd rfl ((hlower.1 lower hhead hnew).2)
    · rw [if_neg (fun heq => hbrace (Option.some.inj heq))]
      exact h

theorem Separated.evalTrue (h : Separated s) :
    wp (Expressions.eval true) (fun _ t => Separated t) (fun _ _ => True)
      (fun _ => True) s := by
  rw [wp_eval_true]
  apply wp_call h.eval
  intro _ t ht
  exact ht.1.braceRemoved

theorem Separated.popArgs {k : Nat} {rest : List Operator}
    (h : Separated s)
    (hops : s.operators = List.replicate k Operator.number ++ rest) :
    wp (popArgs k) (fun _ t => Separated t) (fun _ _ => True)
      (fun _ => True) s := by
  induction k generalizing s with
  | zero => exact h
  | succ k ih =>
      rw [List.replicate_succ, List.cons_append] at hops
      unfold Expressions.popArgs
      rw [wp_bind, wp_popNum hops, wp_bind]
      have hrest : Separated
          { s with
            operators := List.replicate k Operator.number ++ rest
            numbers := s.numbers.tail } :=
        separated_drop [Operator.number] h hops
      apply wp_call (ih hrest rfl)
      intro ns t ht
      exact ht

theorem Separated.popArg (h : Separated s) (imply : TecoInt) :
    wp (do
        let s <- get
        if s.args > 0 then popNum 0 else pure imply)
      (fun _ t => Separated t) (fun _ _ => True) (fun _ => True) s := by
  rw [wp_bind, wp_get, wp_ite]
  split
  case isTrue hargs =>
      rcases args_split s with ⟨rest, hops, _⟩
      rcases Nat.exists_eq_succ_of_ne_zero (Nat.ne_of_gt hargs) with ⟨k, hk⟩
      rw [hk, List.replicate_succ, List.cons_append] at hops
      rw [wp_popNum hops]
      exact separated_drop [Operator.number] h hops
  case isFalse => exact h

theorem Separated.popNumCalc (h : Separated s) (imply : TecoInt) :
    wp (popNumCalc imply) (fun _ t => Separated t) (fun _ _ => True)
      (fun _ => True) s := by
  unfold Expressions.popNumCalc
  rw [wp_bind]
  apply wp_call h.eval
  intro _ t ht
  rw [wp_bind, wp_get]
  dsimp only
  rw [wp_ite]
  split
  · rw [wp_bind, wp_setNumSign]
    exact Separated.popArg (s := { t with numSign := 1 }) ht.1 imply
  · exact ht.1.popArg imply

theorem Separated.pushCalc (h : Separated s) (op : BinaryOp) :
    wp (pushCalc op) (fun _ t => Separated t) (fun _ _ => True)
      (fun _ => True) s := by
  apply wp_pushCalc_of_invariant Separated h
  · intro t ht _
    exact ht.calcTop
  · intro t ht _
    exact separated_cons_marker ht (by simp) (by simp)

theorem Separated.addDigit (h : Separated s) (radix : TecoInt)
    (digit : Nat) :
    wp (addDigit radix digit) (fun _ t => Separated t) (fun _ _ => True)
      (fun _ => True) s := by
  simp only [Expressions.addDigit, wp_bind, wp_get, wp_ite, wp_pushInt]
  split
  case isTrue hargs =>
      rcases args_split s with ⟨rest, hops, _⟩
      rcases Nat.exists_eq_succ_of_ne_zero (Nat.ne_of_gt hargs) with ⟨k, hk⟩
      rw [hk, List.replicate_succ, List.cons_append] at hops
      rw [wp_popNum hops]
      apply Separated.pushed
      exact separated_drop [Operator.number] h hops
  case isFalse => exact h.pushed _

theorem Separated.braceReturnLoop {levels : Nat} (h : Separated s) :
    wp (braceReturnLoop levels) (fun _ t => Separated t) (fun _ _ => True)
      (fun _ => True) s := by
  induction levels generalizing s with
  | zero => exact h
  | succ levels ih =>
      simp only [Expressions.braceReturnLoop, wp_bind, wp_get,
        wp_setBraceLevel]
      apply wp_call h.discardArgs
      intro _ t ht
      apply wp_call ht.evalTrue
      intro _ u hu
      exact ih hu

theorem Separated.braceReturn (keepBraces : Nat) (fetch : Fetch)
    (h : Separated s) :
    wp (braceReturn keepBraces (fetch.count s.args))
      (fun _ t => Separated t) (fun _ _ => True) (fun _ => True) s := by
  simp only [Expressions.braceReturn, wp_bind, wp_undoBraceLevel, wp_get]
  apply wp_call (h.popArgs (fetch_split fetch s))
  intro ns t ht
  apply wp_call ht.braceReturnLoop
  intro _ u hu
  apply wp_pushArgs_of_invariant Separated hu
  intro v n hv
  exact hv.pushed n

theorem Call.run_separated (c : Call) (h : Separated s) :
    wp c.run (fun _ t => Separated t) (fun _ _ => True)
      (fun _ => True) s := by
  cases c with
  | pushInt n =>
      show wp (Expressions.pushInt n) _ _ _ s
      rw [wp_pushInt]
      exact h.pushed n
  | pushNew => exact separated_cons_marker h (by simp) (by simp)
  | pushCalc op => exact h.pushCalc op
  | addDigit radix digit => exact h.addDigit radix digit
  | setNumSign sign => exact h
  | eval =>
      apply wp_call h.eval
      intro _ t ht
      exact ht.1
  | popArgs fetch =>
      show wp (do
        let s <- get
        let _ <- Expressions.popArgs (fetch.count s.args)
        pure ()) _ _ _ s
      rw [wp_bind, wp_get, wp_bind]
      apply wp_call (h.popArgs (fetch_split fetch s))
      intro ns t ht
      exact ht
  | popNumCalc imply =>
      show wp (do
        let _ <- Expressions.popNumCalc imply
        pure ()) _ _ _ s
      rw [wp_bind]
      apply wp_call (h.popNumCalc imply)
      intro n t ht
      exact ht
  | discardArgs => exact h.discardArgs
  | braceOpen =>
      show wp Expressions.braceOpen _ _ _ s
      simp only [Expressions.braceOpen, wp_bind, wp_popNew, wp_pushOp,
        wp_undoBraceLevel, wp_get, wp_setBraceLevel]
      exact separated_cons (separated_dropNew h) (head_dropNew _)
  | braceClose =>
      show wp Expressions.braceClose _ _ _ s
      simp only [Expressions.braceClose, wp_bind, wp_get, wp_ite, wp_throw,
        wp_undoBraceLevel, wp_setBraceLevel]
      split
      · trivial
      · exact Separated.evalTrue
          (s := { s with braceLevel := s.braceLevel - 1 }) h
  | braceReturn keepBraces fetch =>
      show wp (do
        let s <- get
        Expressions.braceReturn keepBraces (fetch.count s.args)) _ _ _ s
      rw [wp_bind, wp_get]
      exact h.braceReturn keepBraces fetch
  | clear => exact List.isChain_nil

/-- In every reachable state. -/
theorem reachable_separated {cond : Call -> Expressions -> Prop}
    (h : Reachable cond s) : Separated s :=
  h.invariant separated_initial (fun c _ hs _ => c.run_separated hs)

/-- No comma is below an argument that has been popped. -/
theorem Separated.popNumCalc_head (h : Separated s) {imply n : TecoInt}
    {t : Expressions} {tokens : List (Expressions -> Expressions)}
    (hrun : Expressions.popNumCalc imply s = .ok n t tokens)
    (hn : n ≠ imply) : t.operators.head? ≠ some Operator.new := by
  have hwp : wp (Expressions.popNumCalc imply)
      (fun m u => m = imply ∨ u.operators.head? ≠ some Operator.new)
      (fun _ _ => True) (fun _ => True) s := by
    unfold Expressions.popNumCalc
    rw [wp_bind]
    apply wp_call h.eval
    intro _ u hu
    have hpop : forall v : Expressions, Separated v ->
        wp (do
            let s <- get
            if s.args > 0 then popNum 0 else pure imply)
          (fun m u => m = imply ∨
            u.operators.head? ≠ some Operator.new)
          (fun _ _ => True) (fun _ => True) v := by
      intro v hv
      rw [wp_bind, wp_get, wp_ite]
      split
      case isTrue hargs =>
          rcases args_split v with ⟨rest, hops, _⟩
          rcases Nat.exists_eq_succ_of_ne_zero (Nat.ne_of_gt hargs) with
            ⟨k, hk⟩
          rw [hk, List.replicate_succ, List.cons_append] at hops
          rw [wp_popNum hops]
          right
          have hchain : List.IsChain MayCover v.operators := hv
          rw [hops, List.isChain_cons] at hchain
          intro hhead
          exact absurd rfl (hchain.1 _ hhead rfl).1
      case isFalse => exact Or.inl rfl
    rw [wp_bind, wp_get]
    dsimp only
    rw [wp_ite]
    split
    · rw [wp_bind, wp_setNumSign]
      exact hpop { u with numSign := 1 } hu.1
    · exact hpop u hu.1
  have h := wp_ok hwp hrun
  rcases h with heq | hhead
  · exact absurd heq hn
  · exact hhead

end Expressions
end SciTECO
