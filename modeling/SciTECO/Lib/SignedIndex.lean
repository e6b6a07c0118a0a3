import Mathlib.Data.List.Basic
import Mathlib.Tactic.Common

/-!
# Signed indices

A positive index counts the elements of a list from its start, beginning with
1, a negative one from its end.  If the list is too short, the rest of the
index is left for another list.
-/

namespace SignedIndex

variable {α : Type}

/-- The element at an index, and what is left of the index otherwise. -/
def pick (n : Int) (xs : List α) : Int × Option α :=
  if xs.length < n.natAbs then
    (if 0 < n then n - xs.length else n + xs.length, none)
  else
    (0, if 0 < n then xs[n.natAbs - 1]? else xs[xs.length - n.natAbs]?)

theorem pick_short {n : Int} {xs : List α} (h : xs.length < n.natAbs) :
    pick n xs =
      (if 0 < n then n - xs.length else n + xs.length, none) := if_pos h

theorem pick_nil {n : Int} (h : n ≠ 0) :
    pick n ([] : List α) = (n, none) := by
  rw [pick_short (by simp; omega)]
  simp

theorem pick_pos {n : Int} {xs : List α} (hn : 0 < n)
    (h : n ≤ xs.length) : pick n xs = (0, xs[n.natAbs - 1]?) := by
  unfold pick
  rw [if_neg (by omega), if_pos hn]

theorem pick_neg {n : Int} {xs : List α} (hn : n < 0)
    (h : -n ≤ xs.length) :
    pick n xs = (0, xs[xs.length - n.natAbs]?) := by
  unfold pick
  rw [if_neg (by omega), if_neg (by omega)]

theorem pick_map {β : Type} (f : α -> β) (n : Int) (xs : List α) :
    pick n (xs.map f) = ((pick n xs).1, (pick n xs).2.map f) := by
  unfold pick
  rw [List.length_map]
  split
  · rfl
  · split
    · rw [List.getElem?_map]
    · rw [List.getElem?_map]

/-- The index is used up exactly if there is an element. -/
theorem pick_zero_iff {n : Int} (hn : n ≠ 0) (xs : List α) :
    (pick n xs).1 = 0 <-> (pick n xs).2.isSome = true := by
  by_cases hshort : xs.length < n.natAbs
  · rw [pick_short hshort]
    simp only [Option.isSome_none, Bool.false_eq_true, iff_false]
    split <;> omega
  · have hsome : (pick n xs).2.isSome = true := by
      unfold pick
      rw [if_neg hshort]
      dsimp only
      split
      · rw [List.getElem?_eq_getElem (by omega)]
        rfl
      · rw [List.getElem?_eq_getElem (by omega)]
        rfl
    have hzero : (pick n xs).1 = 0 := by
      unfold pick
      rw [if_neg hshort]
    exact ⟨fun _ => hsome, fun _ => hzero⟩

/-- The rest of an index has the same sign. -/
theorem pick_rest_pos {n : Int} {xs : List α} (hn : 0 < n)
    (h : (pick n xs).1 ≠ 0) :
    (xs.length : Int) < n ∧ (pick n xs).1 = n - xs.length := by
  by_cases hshort : xs.length < n.natAbs
  · rw [pick_short hshort, if_pos hn]
    constructor
    · omega
    · rfl
  · unfold pick at h
    rw [if_neg hshort] at h
    exact absurd rfl h

theorem pick_rest_neg {n : Int} {xs : List α} (hn : n < 0)
    (h : (pick n xs).1 ≠ 0) :
    (xs.length : Int) < -n ∧ (pick n xs).1 = n + xs.length := by
  by_cases hshort : xs.length < n.natAbs
  · rw [pick_short hshort, if_neg (by omega)]
    constructor
    · omega
    · rfl
  · unfold pick at h
    rw [if_neg hshort] at h
    exact absurd rfl h

/-- A positive index goes on in the second of two lists. -/
theorem pick_append_pos {n : Int} (hn : 0 < n) (xs ys : List α) :
    pick n (xs ++ ys) =
      if (pick n xs).1 = 0 then pick n xs else pick (pick n xs).1 ys := by
  by_cases hle : n ≤ xs.length
  · have hxs := pick_pos hn hle
    rw [if_pos (congrArg Prod.fst hxs), hxs,
      pick_pos hn (by rw [List.length_append]; omega),
      List.getElem?_append_left (by omega)]
  · have hshort : xs.length < n.natAbs := by omega
    have hrest : (pick n xs).1 = n - xs.length := by
      rw [pick_short hshort, if_pos hn]
    rw [if_neg (by omega), hrest]
    by_cases hys : n - xs.length ≤ ys.length
    · rw [pick_pos hn (by rw [List.length_append]; omega),
        pick_pos (by omega) hys, List.getElem?_append_right (by omega)]
      congr 2
      omega
    · rw [pick_short (by rw [List.length_append]; omega),
        pick_short (by omega), if_pos hn, if_pos (by omega),
        List.length_append]
      congr 1
      omega

/-- A negative index goes on in the first of two lists. -/
theorem pick_append_neg {n : Int} (hn : n < 0) (xs ys : List α) :
    pick n (xs ++ ys) =
      if (pick n ys).1 = 0 then pick n ys else pick (pick n ys).1 xs := by
  by_cases hle : -n ≤ ys.length
  · have hys := pick_neg hn hle
    rw [if_pos (congrArg Prod.fst hys), hys,
      pick_neg hn (by rw [List.length_append]; omega), List.length_append,
      List.getElem?_append_right (by omega)]
    congr 2
    omega
  · have hshort : ys.length < n.natAbs := by omega
    have hrest : (pick n ys).1 = n + ys.length := by
      rw [pick_short hshort, if_neg (by omega)]
    rw [if_neg (by omega), hrest]
    by_cases hxs : -(n + ys.length) ≤ xs.length
    · rw [pick_neg hn (by rw [List.length_append]; omega),
        pick_neg (by omega) hxs, List.length_append,
        List.getElem?_append_left (by omega)]
      congr 2
      omega
    · rw [pick_short (by rw [List.length_append]; omega),
        pick_short (by omega), if_neg (by omega), if_neg (by omega),
        List.length_append]
      congr 1
      omega

end SignedIndex
