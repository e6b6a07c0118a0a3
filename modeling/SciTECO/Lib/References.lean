import Mathlib.Algebra.BigOperators.Group.List.Basic
import Mathlib.Algebra.Order.Group.Multiset
import Mathlib.Logic.Function.Basic
import Mathlib.Tactic.Abel
import Mathlib.Tactic.Common

/-!
# Reference counts

Objects with reference counts, and the multiset of the references which their
owners hold.  The counts are exact if every object is counted as often as it is
held.  Taking and giving up a reference keeps them exact, and so does handing a
reference on, which changes neither the counts nor the multiset.
-/

namespace References

variable {α : Type} [DecidableEq α]

/-- Every object is counted as often as it is held. -/
def Exact (refs : α -> Nat) (held : Multiset α) : Prop :=
  forall a, refs a = held.count a

/-- The reference which an owner holds, if it holds one. -/
def ofOption : Option α -> Multiset α
  | none => 0
  | some a => {a}

omit [DecidableEq α] in
@[simp] theorem ofOption_none : ofOption (none : Option α) = 0 := rfl

omit [DecidableEq α] in
@[simp] theorem ofOption_some (a : α) : ofOption (some a) = {a} := rfl

/-- The references of a list of owners. -/
def ofOwners {β : Type} (holds : β -> Option α) (owners : List β) :
    Multiset α :=
  (owners.map (fun owner => ofOption (holds owner))).sum

section Owners

variable {β : Type} (holds : β -> Option α)

omit [DecidableEq α] in
@[simp] theorem ofOwners_nil : ofOwners holds [] = 0 := rfl

omit [DecidableEq α] in
@[simp] theorem ofOwners_cons (owner : β) (owners : List β) :
    ofOwners holds (owner :: owners) =
      ofOption (holds owner) + ofOwners holds owners := by
  simp [ofOwners]

omit [DecidableEq α] in
@[simp] theorem ofOwners_append (owners owners' : List β) :
    ofOwners holds (owners ++ owners') =
      ofOwners holds owners + ofOwners holds owners' := by
  simp [ofOwners]

omit [DecidableEq α] in
theorem mem_ofOwners {owners : List β} {owner : β} {a : α}
    (howner : owner ∈ owners) (ha : holds owner = some a) :
    a ∈ ofOwners holds owners := by
  induction owners with
  | nil => cases howner
  | cons first owners ih =>
      rw [ofOwners_cons, Multiset.mem_add]
      cases howner with
      | head =>
          left
          rw [ha]
          exact Multiset.mem_singleton_self a
      | tail _ hrest => exact Or.inr (ih hrest)

omit [DecidableEq α] in
/-- One owner holds something else than before. -/
theorem ofOwners_set {owners : List β} {i : Nat} {owner : β}
    (h : owners[i]? = some owner) (owner' : β) :
    ofOwners holds (owners.set i owner') + ofOption (holds owner) =
      ofOwners holds owners + ofOption (holds owner') := by
  induction owners generalizing i with
  | nil => simp at h
  | cons first owners ih =>
      cases i with
      | zero =>
          have hfirst : first = owner := by simpa using h
          subst hfirst
          simp only [List.set_cons_zero, ofOwners_cons]
          abel
      | succ i =>
          have hrest : owners[i]? = some owner := by simpa using h
          simp only [List.set_cons_succ, ofOwners_cons]
          rw [add_assoc, ih hrest, add_assoc]

end Owners

/-- A held object is counted. -/
theorem Exact.pos {refs : α -> Nat} {held : Multiset α} (h : Exact refs held)
    {a : α} (ha : a ∈ held) : 0 < refs a := by
  rw [h a]
  exact Multiset.count_pos.mpr ha

/-- An object which nobody holds is not counted. -/
theorem Exact.zero {refs : α -> Nat} {held : Multiset α} (h : Exact refs held)
    {a : α} (ha : a ∉ held) : refs a = 0 := by
  rw [h a]
  exact Multiset.count_eq_zero.mpr ha

theorem Exact.acquire {refs : α -> Nat} {held : Multiset α}
    (h : Exact refs held) (a : α) :
    Exact (Function.update refs a (refs a + 1)) ({a} + held) := by
  intro b
  rw [Multiset.count_add, Multiset.count_singleton]
  by_cases hb : b = a
  · subst hb
    rw [Function.update_self, if_pos rfl, h b, Nat.add_comm]
  · rw [Function.update_of_ne hb, if_neg hb, h b, Nat.zero_add]

theorem Exact.release {refs : α -> Nat} {held : Multiset α} {a : α}
    (h : Exact refs ({a} + held)) :
    Exact (Function.update refs a (refs a - 1)) held := by
  intro b
  have hb := h b
  rw [Multiset.count_add, Multiset.count_singleton] at hb
  by_cases hba : b = a
  · subst hba
    rw [Function.update_self, hb, if_pos rfl, Nat.add_sub_cancel_left]
  · rw [Function.update_of_ne hba, hb, if_neg hba, Nat.zero_add]

end References
