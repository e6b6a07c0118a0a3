import SciTECO.Lib.Frame
import SciTECO.Lib.Quiet
import SciTECO.Lib.Restore

/-!
# Conditions on computations

A condition that holds of the simplest computations and of a sequence if it
holds of its parts.  What is proved once from these rules holds of every such
condition.
-/

namespace Undoable

variable {ε φ σ τ ρ α β : Type}

/-- A condition on computations over a state, of any type of value. -/
abbrev Condition (ε φ σ : Type) : Type 1 :=
  (α : Type) -> Undoable ε φ σ α -> Prop

/-- The rules of sequences. -/
structure Sequential (p : Condition ε φ σ) : Prop where
  pure : forall {α : Type} (a : α), p α (Pure.pure a)
  get : p σ Undoable.get
  fault : forall {α : Type} (c : φ), p α (Undoable.fault c)
  bind : forall {α β : Type} {m : Undoable ε φ σ α}
    {f : α -> Undoable ε φ σ β},
    p α m -> (forall a, p β (f a)) -> p β (m >>= f)
  /-- The computation may depend on the state in which it begins. -/
  choose : forall {α : Type} {m : σ -> Undoable ε φ σ α},
    (forall s, p α (m s)) -> p α (fun s => m s s)

namespace Sequential

variable {p : Condition ε φ σ}

theorem ite (_ : Sequential p) {c : Prop} [Decidable c]
    {m n : Undoable ε φ σ α} (hm : p α m) (hn : p α n) :
    p α (if c then m else n) := by
  split
  · exact hm
  · exact hn

theorem throws (c : ε -> Prop) :
    Sequential (fun _ m => Throws c m : Condition ε φ σ) where
  pure := Throws.pure
  get := Throws.get
  fault := Throws.fault
  bind := Throws.bind
  choose := fun h s => h s s

theorem restores (r : σ -> σ -> Prop) :
    Sequential (fun _ m => Restores r m : Condition ε φ σ) where
  pure := Restores.pure
  get := Restores.get
  fault := Restores.fault
  bind := Restores.bind
  choose := fun h s => h s s

theorem quiet (f : σ -> ρ) :
    Sequential (fun _ m => Quiet f m : Condition ε φ σ) where
  pure := Quiet.pure
  get := Quiet.get
  fault := Quiet.fault
  bind := Quiet.bind
  choose := fun h s => h s s

end Sequential

end Undoable
