import SciTECO.Completion.Reading

/-!
# The loops of the completions

The strings seen so far have a number of units in common, of which the loops
keep the bytes behind the beginning.
-/

namespace SciTECO
namespace Completion

open CommonPrefix

variable {U : Type} [DecidableEq U]

/-- A number of units which the strings seen so far have in common, and the
bytes behind the beginning. -/
structure Reached (r : Reading U) (str first : Bytes) (seen : List Bytes)
    (prefixLen count : Nat) : Prop where
  common : exists n, (r.units str).length ≤ n ∧
    n ≤ (r.units first).length ∧ prefixLen = r.width first n - str.length ∧
      IsCommon (seen.map r.units) ((r.units first).take n)
  count : count = seen.length

section

variable {r : Reading U} {diff : Bytes -> Bytes -> Nat} {str : Bytes}
  {l : List Bytes}

end

/-!
## The loops
-/

section

variable {r : Reading U} {toLower : ToLower} {caseSensitive : Bool}
  {str : Bytes} {l : List Bytes}

end

/-!
## What is inserted
-/

/-- The bytes behind the beginning of a string, up to one of its units. -/
structure Inserted (r : Reading U) (str : Bytes) (l : List Bytes)
    (insert : Bytes) : Prop where
  common : IsCommon (l.map r.units) (r.units (str ++ insert))
  slice : exists a n, a ∈ l ∧ (r.units str).length ≤ n ∧
    insert = (a.drop str.length).take (r.width a n - str.length)

section

variable {r : Reading U} {str : Bytes}

omit [DecidableEq U] in
theorem Reached.inserted {first : Bytes} {seen l : List Bytes}
    {prefixLen count : Nat} (h : Reached r str first seen prefixLen count)
    (hinserts : r.Inserts str first)
    (hmem : forall a, a ∈ l <-> a ∈ seen) (hfirst : first ∈ l) :
    Inserted r str l ((first.drop str.length).take prefixLen) := by
  rcases h.common with ⟨n, hlow, hhigh, hlen, hcommon⟩
  rw [hlen]
  refine ⟨?_, first, n, hfirst, hlow, rfl⟩
  rw [hinserts n hlow hhigh]
  apply hcommon.of_mem
  intro units
  rw [List.mem_map, List.mem_map]
  constructor
  · rintro ⟨a, ha, heq⟩
    exact ⟨a, (hmem a).mp ha, heq⟩
  · rintro ⟨a, ha, heq⟩
    exact ⟨a, (hmem a).mpr ha, heq⟩

variable {toLower : ToLower} {caseSensitive : Bool}

end

end Completion
end SciTECO
