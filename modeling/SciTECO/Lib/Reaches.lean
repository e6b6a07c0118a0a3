import Mathlib.Order.Defs.Unbundled

/-!
# States that a computation reaches

A computation with a state may fail, and it then leaves the state it has
reached.  `Reaches R m s` states that `R` relates `s` to the state in which `m`
ends, in either way.
-/

namespace EStateM

variable {ε σ α β : Type}

/-- The state in which a computation ends. -/
def finalState : Result ε σ α -> σ
  | .ok _ t => t
  | .error _ t => t

/-- The final state of a computation is related to its start. -/
def Reaches (R : σ -> σ -> Prop) (m : EStateM ε σ α) (s : σ) : Prop :=
  R s (finalState (m s))

namespace Reaches

variable {R : σ -> σ -> Prop} {m : EStateM ε σ α} {f : α -> EStateM ε σ β}
  {s : σ}

theorem pure [Std.Refl R] (a : α) :
    Reaches R (Pure.pure a : EStateM ε σ α) s :=
  Std.Refl.refl s

theorem throw [Std.Refl R] (e : ε) :
    Reaches R (MonadExcept.throw e : EStateM ε σ α) s :=
  Std.Refl.refl s

theorem update {g : σ -> σ} (h : R s (g s)) :
    Reaches R (modify g : EStateM ε σ PUnit) s := h

theorem of_ok {a : α} {t : σ} (hm : Reaches R m s) (hrun : m s = .ok a t) :
    R s t := by
  unfold Reaches at hm
  rw [hrun] at hm
  exact hm

/-- The rule for a sequence. -/
theorem bind [IsTrans σ R] (hm : Reaches R m s)
    (hf : forall a t, m s = .ok a t -> Reaches R (f a) t) :
    Reaches R (m >>= f) s := by
  unfold Reaches at *
  change R s (finalState (EStateM.bind m f s))
  unfold EStateM.bind
  cases hrun : m s with
  | ok a t =>
      rw [hrun] at hm
      exact IsTrans.trans s t _ hm (hf a t hrun)
  | error e t =>
      rw [hrun] at hm
      exact hm

/-- The rule for a sequence that starts by reading the state. -/
theorem getThen {f : σ -> EStateM ε σ β} (h : Reaches R (f s) s) :
    Reaches R (get >>= f) s := h

/-- The rule for a sequence that starts with a step. -/
theorem updateThen [IsTrans σ R] {g : σ -> σ} {f : PUnit -> EStateM ε σ β}
    (hg : R s (g s)) (hf : Reaches R (f PUnit.unit) (g s)) :
    Reaches R (modify g >>= f) s :=
  IsTrans.trans s (g s) _ hg hf

theorem ite {c : Prop} [Decidable c] {m n : EStateM ε σ α}
    (hm : c -> Reaches R m s) (hn : ¬ c -> Reaches R n s) :
    Reaches R (if c then m else n) s := by
  by_cases h : c
  · rw [if_pos h]
    exact hm h
  · rw [if_neg h]
    exact hn h

/-- The rule for a loop over a list. -/
theorem forM [Std.Refl R] [IsTrans σ R] {f : α -> EStateM ε σ PUnit}
    (xs : List α) (h : forall a t, Reaches R (f a) t) (s : σ) :
    Reaches R (xs.forM f) s := by
  induction xs generalizing s with
  | nil => exact Std.Refl.refl s
  | cons a rest ih =>
      apply bind (h a s)
      intro _ t _
      exact ih t

end Reaches

/-!
## Sequences
-/

theorem run_get_bind {f : σ -> EStateM ε σ β} {s : σ} :
    (get >>= f) s = f s s := rfl

theorem run_modify_bind {g : σ -> σ} {f : PUnit -> EStateM ε σ β} {s : σ} :
    (modify g >>= f) s = f PUnit.unit (g s) := rfl

/-- A sequence that succeeds consists of parts that do. -/
theorem ok_of_bind {m : EStateM ε σ α} {f : α -> EStateM ε σ β} {s u : σ}
    {b : β} (h : (m >>= f) s = .ok b u) :
    exists a t, m s = .ok a t ∧ f a t = .ok b u := by
  change EStateM.bind m f s = .ok b u at h
  unfold EStateM.bind at h
  cases hrun : m s with
  | ok a t =>
      rw [hrun] at h
      exact ⟨a, t, rfl, h⟩
  | error e t =>
      rw [hrun] at h
      cases h

theorem run_bind_ok {m : EStateM ε σ α} {f : α -> EStateM ε σ β} {s t : σ}
    {a : α} (h : m s = .ok a t) : (m >>= f) s = f a t := by
  change EStateM.bind m f s = f a t
  unfold EStateM.bind
  rw [h]

theorem run_bind_error {m : EStateM ε σ α} {f : α -> EStateM ε σ β}
    {s t : σ} {e : ε} (h : m s = .error e t) :
    (m >>= f) s = .error e t := by
  change EStateM.bind m f s = .error e t
  unfold EStateM.bind
  rw [h]

end EStateM
