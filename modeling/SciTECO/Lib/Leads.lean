import SciTECO.Lib.Lens

/-!
# Where a computation leads to

A relation between the state before and after a computation and the tokens that
were registered in between.  It does not matter whether the computation ends
with an error.  The relations of interest can be composed.
-/

namespace Undoable

variable {ε φ σ τ α β : Type}

/-- A relation that holds when nothing happens, and of a sequence if it holds
of its parts. -/
structure Composes (q : σ -> σ -> List (σ -> σ) -> Prop) : Prop where
  refl : forall s, q s s []
  trans : forall {s t u earlier later}, q s t earlier -> q t u later ->
    q s u (later ++ earlier)

/-- From `s`, the computation leads to a related state. -/
def Leads (q : σ -> σ -> List (σ -> σ) -> Prop) (m : Undoable ε φ σ α)
    (s : σ) : Prop :=
  match m s with
  | .ok _ t tokens => q s t tokens
  | .error _ t tokens => q s t tokens
  | .fault _ => True

namespace Leads

variable {q q' : σ -> σ -> List (σ -> σ) -> Prop} {s : σ}

theorem mono {m : Undoable ε φ σ α} (h : Leads q m s)
    (hq : forall t tokens, q s t tokens -> q' s t tokens) :
    Leads q' m s := by
  unfold Leads at h ⊢
  cases hrun : m s with
  | ok a t tokens =>
      rw [hrun] at h
      exact hq t tokens h
  | error e t tokens =>
      rw [hrun] at h
      exact hq t tokens h
  | fault c => trivial

theorem congr {m n : Undoable ε φ σ α} (h : Leads q m s)
    (heq : n s = m s) : Leads q n s := by
  unfold Leads at h ⊢
  rw [heq]
  exact h

theorem of_ok {m : Undoable ε φ σ α} {a : α} {t : σ}
    {tokens : List (σ -> σ)} (hrun : m s = .ok a t tokens)
    (h : q s t tokens) : Leads q m s := by
  unfold Leads
  rw [hrun]
  exact h

theorem ok {m : Undoable ε φ σ α} {a : α} {t : σ}
    {tokens : List (σ -> σ)} (h : Leads q m s)
    (hrun : m s = .ok a t tokens) : q s t tokens := by
  unfold Leads at h
  rw [hrun] at h
  exact h

theorem error {m : Undoable ε φ σ α} {e : ε} {t : σ}
    {tokens : List (σ -> σ)} (h : Leads q m s)
    (hrun : m s = .error e t tokens) : q s t tokens := by
  unfold Leads at h
  rw [hrun] at h
  exact h

/-- The first part of a sequence is known. -/
theorem after_ok {m : Undoable ε φ σ α} {f : α -> Undoable ε φ σ β}
    {a : α} {t : σ} {earlier : List (σ -> σ)}
    (hrun : m s = .ok a t earlier)
    (h : Leads (fun _ u later => q s u (later ++ earlier)) (f a) t) :
    Leads q (m >>= f) s := by
  show Leads q (Undoable.bind m f) s
  unfold Leads at h ⊢
  unfold Undoable.bind
  rw [hrun]
  dsimp only
  cases hstep : f a t with
  | ok b u later =>
      rw [hstep] at h
      exact h
  | error e u later =>
      rw [hstep] at h
      exact h
  | fault c => trivial

theorem after_error {m : Undoable ε φ σ α} {f : α -> Undoable ε φ σ β}
    {e : ε} {t : σ} {tokens : List (σ -> σ)}
    (hrun : m s = .error e t tokens) (h : q s t tokens) :
    Leads q (m >>= f) s := by
  show Leads q (Undoable.bind m f) s
  unfold Leads Undoable.bind
  rw [hrun]
  exact h

theorem after_fault {m : Undoable ε φ σ α} {f : α -> Undoable ε φ σ β}
    {c : φ} (hrun : m s = .fault c) : Leads q (m >>= f) s := by
  show Leads q (Undoable.bind m f) s
  unfold Leads Undoable.bind
  rw [hrun]
  trivial

section Sequences

variable (hq : Composes q)
include hq

theorem pure (a : α) : Leads q (Pure.pure a : Undoable ε φ σ α) s :=
  hq.refl s

theorem get : Leads q (Undoable.get : Undoable ε φ σ σ) s := hq.refl s

theorem throw (e : ε) : Leads q (Undoable.throw e : Undoable ε φ σ α) s :=
  hq.refl s

omit hq in
theorem fault (c : φ) : Leads q (Undoable.fault c : Undoable ε φ σ α) s :=
  trivial

theorem bind {m : Undoable ε φ σ α} {f : α -> Undoable ε φ σ β}
    (hm : Leads q m s)
    (hf : forall a t tokens, m s = .ok a t tokens -> Leads q (f a) t) :
    Leads q (m >>= f) s := by
  show Leads q (Undoable.bind m f) s
  unfold Leads at hm hf ⊢
  unfold Undoable.bind
  cases hrun : m s with
  | ok a t earlier =>
      rw [hrun] at hm
      have hnext := hf a t earlier hrun
      dsimp only
      cases hstep : f a t with
      | ok b u later =>
          rw [hstep] at hnext
          exact hq.trans hm hnext
      | error e u later =>
          rw [hstep] at hnext
          exact hq.trans hm hnext
      | fault c => trivial
  | error e t earlier =>
      rw [hrun] at hm
      exact hm
  | fault c => trivial

/-- A computation which reads the state first. -/
theorem read {f : σ -> Undoable ε φ σ β} (h : Leads q (f s) s) :
    Leads q ((Undoable.get : Undoable ε φ σ σ) >>= f) s := by
  apply bind hq (get hq)
  intro a t tokens hrun
  cases hrun
  exact h

omit hq in
theorem ite {c : Prop} [Decidable c] {m n : Undoable ε φ σ α}
    (hm : c -> Leads q m s) (hn : ¬c -> Leads q n s) :
    Leads q (if c then m else n) s := by
  split
  case isTrue h => exact hm h
  case isFalse h => exact hn h

/-- An error is caught, and the handler goes on from where it has led to. -/
theorem handle {m : Undoable ε φ σ α} {handler : ε -> Undoable ε φ σ α}
    (hm : Leads q m s)
    (hhandler : forall e t tokens, m s = .error e t tokens ->
      Leads q (handler e) t) :
    Leads q (Undoable.handle m handler) s := by
  unfold Leads at hm hhandler ⊢
  unfold Undoable.handle Undoable.bind
  cases hrun : m s with
  | ok a t tokens =>
      rw [hrun] at hm
      exact hm
  | error e t earlier =>
      rw [hrun] at hm
      have hnext := hhandler e t earlier hrun
      dsimp only
      cases hstep : handler e t with
      | ok b u later =>
          rw [hstep] at hnext
          exact hq.trans hm hnext
      | error e' u later =>
          rw [hstep] at hnext
          exact hq.trans hm hnext
      | fault c => trivial
  | fault c => trivial

theorem ensuring {m : Undoable ε φ σ α} {after : Undoable ε φ σ Unit}
    (hm : Leads q m s)
    (hafter : forall t tokens, q s t tokens -> Leads q after t) :
    Leads q (Undoable.ensuring m after) s := by
  unfold Leads at hm hafter ⊢
  unfold Undoable.ensuring Undoable.bind
  cases hrun : m s with
  | ok a t earlier =>
      rw [hrun] at hm
      have hnext := hafter t earlier hm
      dsimp only
      cases hstep : after t with
      | ok b u later =>
          rw [hstep] at hnext
          exact hq.trans hm hnext
      | error e u later =>
          rw [hstep] at hnext
          exact hq.trans hm hnext
      | fault c => trivial
  | error e t earlier =>
      rw [hrun] at hm
      have hnext := hafter t earlier hm
      dsimp only
      cases hstep : after t with
      | ok b u later =>
          rw [hstep] at hnext
          exact hq.trans hm hnext
      | error e' u later =>
          rw [hstep] at hnext
          exact hq.trans hm hnext
      | fault c => trivial
  | fault c => trivial

end Sequences

/-- Work on a part of the state. -/
theorem zoom {l : Lens σ τ} {q' : τ -> τ -> List (τ -> τ) -> Prop}
    {m : Undoable ε φ τ α} (hm : Leads q' m (l.get s))
    (h : forall t tokens, q' (l.get s) t tokens ->
      q s (l.set t s) (tokens.map l.onPart)) :
    Leads q (Undoable.zoom l m) s := by
  unfold Leads at hm ⊢
  unfold Undoable.zoom
  cases hrun : m (l.get s) with
  | ok a t tokens =>
      rw [hrun] at hm
      exact h t tokens hm
  | error e t tokens =>
      rw [hrun] at hm
      exact h t tokens hm
  | fault c => trivial

/-- Work on a larger state. -/
theorem onLarger {enlarge : τ -> σ} {part : σ -> τ}
    {q' : τ -> τ -> List (τ -> τ) -> Prop} {m : Undoable ε φ σ α} {t : τ}
    (hm : Leads q m (enlarge t))
    (h : forall s tokens, q (enlarge t) s tokens ->
      q' t (part s)
        (tokens.map (fun token t => part (token (enlarge t))))) :
    Leads q' (Undoable.onLarger enlarge part m) t := by
  unfold Leads at hm ⊢
  unfold Undoable.onLarger
  cases hrun : m (enlarge t) with
  | ok a s tokens =>
      rw [hrun] at hm
      exact h s tokens hm
  | error e s tokens =>
      rw [hrun] at hm
      exact h s tokens hm
  | fault c => trivial

end Leads

end Undoable
