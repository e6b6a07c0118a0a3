import SciTECO.Editing.Outcome
import SciTECO.Lib.Reaches
import SciTECO.Lib.SignedIndex

/-!
# Searches with a count

A count selects one of the matches which a scan of the text finds.  Searching
backwards is a scan as well, of which the last matches are kept.
-/

namespace SciTECO
namespace Editing

open EStateM Editor SignedIndex

/-- The count of a search command, which is a `gint`. -/
def gint (n : TecoInt) : Int := (n.setWidth 32).toInt

/-- A count differs from the number by a multiple of 2^32. -/
theorem gint_spec (n : TecoInt) :
    -2147483648 ≤ gint n ∧ gint n ≤ 2147483647 ∧
      exists k : Int, n.toInt = gint n + 4294967296 * k := by
  have hlow := BitVec.le_toInt (n.setWidth 32)
  have hhigh := BitVec.toInt_lt (x := n.setWidth 32)
  refine ⟨hlow, ?_, ?_⟩
  · unfold gint
    omega
  · have hwidth : gint n = Int.bmod n.toNat (2 ^ 32) := by
      unfold gint
      exact BitVec.toInt_setWidth n
    have hnat : exists k : Int, n.toInt = n.toNat + 4294967296 * k := by
      rw [BitVec.toInt_eq_toNat_cond]
      split
      · exact ⟨0, by omega⟩
      · exact ⟨-4294967296, by omega⟩
    rcases hnat with ⟨k, hk⟩
    have hmod := Int.bmod_add_bdiv n.toNat (2 ^ 32)
    refine ⟨k + Int.bdiv n.toNat (2 ^ 32), ?_⟩
    rw [hk, hwidth]
    omega

/-!
## The loops of the search
-/

theorem forwards_eq {found : Matches} {hits : List Match}
    (h : found.all = .ok hits) {count : Int} (hcount : 0 < count) :
    found.forwards count = .ok (pick count hits) := by
  induction found generalizing hits count with
  | failed err => cases h
  | done =>
      cases h
      rw [pick_short (by simp; omega), if_pos hcount]
      simp [Matches.forwards]
  | found hit next ih =>
      rcases except_bind_ok h with ⟨rest, hrest, hhits⟩
      cases hhits
      have hcons := pick_append_pos hcount [hit] rest
      rw [List.singleton_append] at hcons
      unfold Matches.forwards
      rw [hcons]
      by_cases hlast : count - 1 = 0
      · have hone : count = 1 := by omega
        subst hone
        rfl
      · have hshort : pick count [hit] = (count - 1, none) := by
          rw [pick_short (by simp; omega), if_pos hcount]
          rfl
        rw [if_neg hlast, hshort, if_neg hlast]
        exact ih hrest (by omega)

/-- A count of 0 goes through all matches. -/
theorem forwards_nonpos {found : Matches} {hits : List Match}
    (h : found.all = .ok hits) {count : Int} (hcount : count ≤ 0) :
    found.forwards count = .ok (count - hits.length, none) := by
  induction found generalizing hits count with
  | failed err => cases h
  | done =>
      cases h
      simp [Matches.forwards]
  | found hit next ih =>
      rcases except_bind_ok h with ⟨rest, hrest, hhits⟩
      cases hhits
      unfold Matches.forwards
      rw [if_neg (by omega), ih hrest (by omega)]
      simp only [List.length_cons]
      congr 2
      omega

theorem backwards_eq {found : Matches} {hits : List Match}
    (h : found.all = .ok hits) {count : Int} (hcount : count < 0) :
    found.backwards count = .ok (pick count hits) := by
  unfold Matches.backwards
  rw [h]
  change (if count.natAbs ≤ hits.length then _ else _) = _
  by_cases hle : count.natAbs ≤ hits.length
  · rw [if_pos hle, pick_neg hcount (by omega)]
    rfl
  · rw [if_neg hle, pick_short (by omega), if_neg (by omega)]
    rfl

section

variable {Re : Type} (sci : Scintilla) (regexps : Regexps Re)

/-- The result of a search with a count other than 0. -/
theorem findMatch_eq {re : Re} {subject : Bytes} {hits : List Match}
    (h : (regexps.matchFull re subject).all = .ok hits) {count : Int}
    (hcount : count ≠ 0)
    (hmemory : count < 0 -> regexps.memoryCheck count.natAbs = .ok ()) :
    findMatch regexps re subject count = .ok (pick count hits) := by
  unfold findMatch
  split
  · exact forwards_eq h (by omega)
  · rw [hmemory (by omega)]
    exact backwards_eq h (by omega)

/-!
## The match that a count selects
-/

/-- The number fits into a count, it is not 0 where nothing matches, and there
is enough memory for the matches to be kept. -/
def Countable (n : TecoInt) (hits : List Match) : Prop :=
  gint n = n.toInt ∧ (n.toInt = 0 -> hits ≠ []) ∧
    (n.toInt < 0 -> regexps.memoryCheck n.toInt.natAbs = .ok ())

section

variable {re : Re} {fromPos toPos : Nat} {n : TecoInt} {hits : List Match}
  {s : Editor}

end

end

end Editing
end SciTECO
