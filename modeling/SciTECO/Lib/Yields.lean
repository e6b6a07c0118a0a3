import Mathlib.Tactic.Common

/-!
# Results of partial computations

`Yields m post` states that a partial computation has a result and that the
result meets a condition.
-/

/-- The computation has a result, and the result meets the condition. -/
def Yields {α : Type} (m : Option α) (post : α -> Prop) : Prop :=
  exists a, m = some a ∧ post a

namespace Yields

variable {α β : Type} {post : α -> Prop} {post' : β -> Prop}

theorem some {a : α} (h : post a) : Yields (Option.some a) post :=
  ⟨a, rfl, h⟩

/-- The rule for a sequence. -/
theorem bind {m : Option α} {f : α -> Option β} (hm : Yields m post)
    (hf : forall a, post a -> Yields (f a) post') :
    Yields (m >>= f) post' := by
  rcases hm with ⟨a, ha, hpost⟩
  rcases hf a hpost with ⟨b, hb, hpost'⟩
  exists b
  constructor
  · rw [ha]
    exact hb
  · exact hpost'

theorem mono {m : Option α} {post'' : α -> Prop} (hm : Yields m post)
    (h : forall a, post a -> post'' a) : Yields m post'' := by
  rcases hm with ⟨a, ha, hpost⟩
  exact ⟨a, ha, h a hpost⟩

theorem and {m : Option α} {post'' : α -> Prop} (h : Yields m post)
    (h' : Yields m post'') : Yields m (fun a => post a ∧ post'' a) := by
  rcases h with ⟨a, ha, hpost⟩
  rcases h' with ⟨a', ha', hpost'⟩
  rw [ha] at ha'
  cases ha'
  exact ⟨a, ha, hpost, hpost'⟩

theorem ite {c : Prop} [Decidable c] {m n : Option α}
    (hm : c -> Yields m post) (hn : ¬ c -> Yields n post) :
    Yields (if c then m else n) post := by
  by_cases h : c
  · rw [if_pos h]
    exact hm h
  · rw [if_neg h]
    exact hn h

end Yields
