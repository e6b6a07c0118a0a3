import Mathlib.Data.List.Basic
import SciTECO.Lib.Undoable

/-!
# Undo logs by position

Tokens are kept for every position of a text, the latest one of a position
first.  The log may end in front of the last position of the text.  It is
unwound from its end to a position.
-/

namespace PositionLog

open Undoable

variable {σ : Type}

/-- The tokens of every position. -/
abbrev Log (σ : Type) : Type := List (List (σ -> σ))

def tokensAt (log : Log σ) (pos : Nat) : List (σ -> σ) := log.getD pos []

/-- Register a token at the last position. -/
def push (pos : Nat) (token : σ -> σ) (log : Log σ) : Option (Log σ) :=
  let log := log ++ List.replicate (pos + 1 - log.length) []
  if log.length = pos + 1 then
    some (log.dropLast ++ [token :: log.getLastD []])
  else none

/-- Register the tokens of a computation, which are listed with the latest one
first. -/
def pushAll (pos : Nat) (tokens : List (σ -> σ)) (log : Log σ) :
    Option (Log σ) :=
  tokens.foldr (fun token r => r.bind (push pos token)) (some log)

/-- Run the tokens of all positions from one on. -/
def unwindFrom (pos : Nat) (log : Log σ) (s : σ) : σ :=
  unwind (log.drop pos).reverse.flatten s

/-!
## Tokens of a position
-/

theorem tokensAt_of_le {log : Log σ} {pos : Nat} (h : log.length ≤ pos) :
    tokensAt log pos = [] := by
  unfold tokensAt
  rw [List.getD_eq_getElem?_getD, List.getElem?_eq_none h]
  rfl

theorem tokensAt_append (log log' : Log σ) (pos : Nat) :
    tokensAt (log ++ log') pos =
      if pos < log.length then tokensAt log pos
      else tokensAt log' (pos - log.length) := by
  unfold tokensAt
  split
  case isTrue hlt =>
      rw [List.getD_eq_getElem?_getD, List.getElem?_append_left hlt,
        List.getD_eq_getElem?_getD]
  case isFalse hnot =>
      rw [List.getD_eq_getElem?_getD,
        List.getElem?_append_right (Nat.le_of_not_lt hnot),
        List.getD_eq_getElem?_getD]

theorem tokensAt_append_left {log log' : Log σ} {pos : Nat}
    (h : pos < log.length) :
    tokensAt (log ++ log') pos = tokensAt log pos := by
  rw [tokensAt_append, if_pos h]

theorem tokensAt_take (log : Log σ) (n pos : Nat) :
    tokensAt (log.take n) pos = if pos < n then tokensAt log pos else [] := by
  unfold tokensAt
  rw [List.getD_eq_getElem?_getD, List.getD_eq_getElem?_getD,
    List.getElem?_take]
  split <;> rfl

/-- Positions without tokens at the end. -/
theorem tokensAt_padded (log : Log σ) (n pos : Nat) :
    tokensAt (log ++ List.replicate n []) pos = tokensAt log pos := by
  rw [tokensAt_append]
  split
  case isTrue => rfl
  case isFalse hnot =>
      rw [tokensAt_of_le (Nat.le_of_not_lt hnot)]
      unfold tokensAt
      rw [List.getD_eq_getElem?_getD, List.getElem?_replicate]
      split <;> rfl

/-!
## Unwinding
-/

theorem unwindFrom_of_le {log : Log σ} {pos : Nat} (h : log.length ≤ pos)
    (s : σ) : unwindFrom pos log s = s := by
  unfold unwindFrom
  rw [List.drop_of_length_le h]
  rfl

theorem unwindFrom_padded (log : Log σ) (n pos : Nat) (s : σ) :
    unwindFrom pos (log ++ List.replicate n []) s = unwindFrom pos log s := by
  have hempty : forall m, (List.replicate m ([] : List (σ -> σ))).flatten = [] := by
    intro m
    exact List.flatten_eq_nil_iff.mpr (fun l hl => List.eq_of_mem_replicate hl)
  unfold unwindFrom
  rw [List.drop_append, List.drop_replicate, List.reverse_append,
    List.reverse_replicate, List.flatten_append, hempty, List.nil_append]

/-- Unwinding may stop on the way. -/
theorem unwindFrom_take {n pos : Nat} (h : pos ≤ n) (log : Log σ) (s : σ) :
    unwindFrom pos (log.take n) (unwindFrom n log s) =
      unwindFrom pos log s := by
  have hdrop : log.drop pos = (log.take n).drop pos ++ log.drop n := by
    rw [List.drop_take]
    conv => lhs; rw [<- List.take_append_drop (n - pos) (log.drop pos)]
    rw [List.drop_drop, Nat.add_sub_cancel' h]
  unfold unwindFrom
  rw [hdrop, List.reverse_append, List.flatten_append, unwind_append]

/-- Only the tokens of the positions matter. -/
theorem unwindFrom_congr {log log' : Log σ}
    (h : forall i, tokensAt log i = tokensAt log' i) (pos : Nat) (s : σ) :
    unwindFrom pos log s = unwindFrom pos log' s := by
  have hpadded : log ++ List.replicate (log'.length - log.length) [] =
      log' ++ List.replicate (log.length - log'.length) [] := by
    apply List.ext_getElem
    · simp only [List.length_append, List.length_replicate]
      omega
    · intro i hi hi'
      have htokens := h i
      rw [<- tokensAt_padded log (log'.length - log.length),
        <- tokensAt_padded log' (log.length - log'.length)] at htokens
      unfold tokensAt at htokens
      rw [List.getD_eq_getElem?_getD, List.getD_eq_getElem?_getD,
        List.getElem?_eq_getElem hi, List.getElem?_eq_getElem hi'] at htokens
      exact htokens
  rw [<- unwindFrom_padded log (log'.length - log.length), hpadded,
    unwindFrom_padded]

theorem unwindFrom_append (log log' : Log σ) (s : σ) :
    unwindFrom log.length (log ++ log') s = unwindFrom 0 log' s := by
  unfold unwindFrom
  rw [List.drop_left, List.drop_zero]

theorem unwindFrom_last {log : Log σ} {pos : Nat} (h : pos ≤ log.length)
    (tokens : List (σ -> σ)) (s : σ) :
    unwindFrom pos (log ++ [tokens]) s =
      unwindFrom pos log (unwind tokens s) := by
  unfold unwindFrom
  rw [List.drop_append_of_le_length h, List.reverse_append,
    List.flatten_append, unwind_append]
  simp

/-!
## Registering
-/

/-- A token is run before all others. -/
theorem push_spec {log : Log σ} {pos : Nat} (h : log.length ≤ pos + 1)
    (token : σ -> σ) :
    exists log', push pos token log = some log' ∧ log'.length = pos + 1 ∧
      (forall i, tokensAt log' i =
        if i = pos then token :: tokensAt log pos else tokensAt log i) ∧
      forall n s, n ≤ pos ->
        unwindFrom n log' s = unwindFrom n log (token s) := by
  obtain ⟨padded, hpadded⟩ :
    exists l, l = log ++ List.replicate (pos + 1 - log.length) [] := ⟨_, rfl⟩
  have hlength : padded.length = pos + 1 := by
    rw [hpadded, List.length_append, List.length_replicate]
    omega
  have hne : padded ≠ [] := by
    intro hnil
    rw [hnil] at hlength
    cases hlength
  obtain ⟨front, last, hsplit⟩ :
      exists front last, padded = front ++ [last] :=
    ⟨_, _, (List.dropLast_append_getLast hne).symm⟩
  have hfront : front.length = pos := by
    rw [hsplit, List.length_append, List.length_singleton] at hlength
    exact Nat.succ.inj hlength
  have hpush : push pos token log = some (front ++ [token :: last]) := by
    unfold push
    dsimp only
    rw [<- hpadded, if_pos hlength, hsplit, List.dropLast_concat,
      List.getLastD_concat]
  have htokens : forall i, tokensAt log i = tokensAt (front ++ [last]) i := by
    intro i
    rw [<- hsplit, hpadded, tokensAt_padded]
  refine ⟨front ++ [token :: last], hpush, ?_, ?_, ?_⟩
  · rw [List.length_append, List.length_singleton, hfront]
  · intro i
    rw [htokens, htokens, tokensAt_append, tokensAt_append, tokensAt_append,
      hfront]
    rcases Nat.lt_trichotomy i pos with hlt | rfl | hlt
    · rw [if_pos hlt, if_neg (Nat.ne_of_lt hlt), if_pos hlt]
    · rw [if_neg (Nat.lt_irrefl _), if_pos rfl, if_neg (Nat.lt_irrefl _),
        Nat.sub_self]
      rfl
    · rw [if_neg (Nat.lt_asymm hlt), if_neg (Nat.ne_of_gt hlt),
        if_neg (Nat.lt_asymm hlt)]
      have hpos : 1 ≤ i - pos := by omega
      rw [tokensAt_of_le hpos, tokensAt_of_le hpos]
  · intro n s hn
    have hlast : unwindFrom n log (token s) =
        unwindFrom n (front ++ [last]) (token s) := by
      rw [<- hsplit, hpadded, unwindFrom_padded]
    rw [hlast, unwindFrom_last (by omega), unwindFrom_last (by omega)]
    rfl

/-- Tokens have been registered at a position. -/
structure Pushed (pos : Nat) (tokens : List (σ -> σ)) (log log' : Log σ) :
    Prop where
  length_le : log'.length ≤ pos + 1
  tokensAt_eq : forall i, tokensAt log' i =
    if i = pos then tokens ++ tokensAt log pos else tokensAt log i
  unwindFrom_eq : forall n s, n ≤ pos ->
    unwindFrom n log' s = unwindFrom n log (unwind tokens s)

theorem Pushed.before {pos i : Nat} {tokens : List (σ -> σ)}
    {log log' : Log σ} (h : Pushed pos tokens log log') (hi : i < pos) :
    tokensAt log' i = tokensAt log i := by
  rw [h.tokensAt_eq, if_neg (Nat.ne_of_lt hi)]

/-- The first tokens of a position. -/
theorem Pushed.first {pos : Nat} {tokens : List (σ -> σ)} {log log' : Log σ}
    (h : Pushed pos tokens log log') (hlength : log.length ≤ pos) :
    tokensAt log' pos = tokens := by
  rw [h.tokensAt_eq, if_pos rfl, tokensAt_of_le hlength, List.append_nil]

/-- The tokens of a computation at the last position. -/
theorem pushAll_spec {log : Log σ} {pos : Nat} (h : log.length ≤ pos + 1)
    (tokens : List (σ -> σ)) :
    exists log', pushAll pos tokens log = some log' ∧
      Pushed pos tokens log log' := by
  induction tokens with
  | nil =>
      refine ⟨log, rfl, h, ?_, fun _ _ _ => rfl⟩
      intro i
      split
      case isTrue heq => rw [heq]; rfl
      case isFalse => rfl
  | cons token tokens ih =>
      rcases ih with ⟨log₁, hlog₁, hpushed⟩
      rcases push_spec hpushed.length_le token with
        ⟨log', hpush, hlength, htokens, hunwind⟩
      refine ⟨log', ?_, Nat.le_of_eq hlength, ?_, ?_⟩
      · unfold pushAll at hlog₁ ⊢
        rw [List.foldr_cons, hlog₁]
        exact hpush
      · intro i
        rw [htokens, hpushed.tokensAt_eq, if_pos rfl, hpushed.tokensAt_eq]
        split <;> rfl
      · intro n s hn
        rw [hunwind n s hn, hpushed.unwindFrom_eq n _ hn]
        rfl

end PositionLog
