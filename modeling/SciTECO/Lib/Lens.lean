import SciTECO.Lib.Undoable

/-!
# Parts of a state

A computation over a part of a state is a computation over the whole.  Its
undo tokens then act on that part only.
-/

/-- A part of a state, given by how it is read and replaced. -/
structure Lens (σ τ : Type) where
  get : σ -> τ
  set : τ -> σ -> σ

namespace Lens

variable {σ τ ρ : Type}

/-- Apply a function to the part. -/
def onPart (l : Lens σ τ) (f : τ -> τ) (s : σ) : σ := l.set (f (l.get s)) s

/-- The part of the left component, next to the right component. -/
def left (l : Lens σ τ) : Lens (σ × ρ) (τ × ρ) :=
  { get := fun s => (l.get s.1, s.2)
    set := fun t s => (l.set t.1 s.1, t.2) }

end Lens

namespace Undoable

variable {ε φ σ τ α β : Type}

/-- Run a computation on a part of the state. -/
def zoom (l : Lens σ τ) (m : Undoable ε φ τ α) : Undoable ε φ σ α := fun s =>
  match m (l.get s) with
  | .ok a t tokens => .ok a (l.set t s) (tokens.map l.onPart)
  | .error e t tokens => .error e (l.set t s) (tokens.map l.onPart)
  | .fault c => .fault c

@[simp] theorem wp_zoom (l : Lens σ τ) (m : Undoable ε φ τ α)
    {post : α -> σ -> Prop} {fail : ε -> σ -> Prop} {bad : φ -> Prop}
    {s : σ} :
    wp (zoom l m) post fail bad s <->
      wp m (fun a t => post a (l.set t s)) (fun e t => fail e (l.set t s))
        bad (l.get s) := by
  unfold wp zoom
  cases m (l.get s) <;> exact Iff.rfl

theorem result_zoom (l : Lens σ τ) (m : Undoable ε φ τ α) (s : σ) :
    result (zoom l m) s =
      (result m (l.get s)).map (fun p => (p.1, l.set p.2 s)) := by
  unfold result zoom
  cases m (l.get s) <;> rfl

/-- An error comes from the computation on the part. -/
theorem zoom_error {l : Lens σ τ} {m : Undoable ε φ τ α} {s s' : σ} {e : ε}
    {tokens : List (σ -> σ)} (h : zoom l m s = .error e s' tokens) :
    exists t tokens', m (l.get s) = .error e t tokens' := by
  unfold zoom at h
  cases hrun : m (l.get s) with
  | ok a t tokens' =>
      rw [hrun] at h
      cases h
  | error e' t tokens' =>
      rw [hrun] at h
      cases h
      exact ⟨t, tokens', rfl⟩
  | fault c =>
      rw [hrun] at h
      cases h

theorem zoom_ok {l : Lens σ τ} {m : Undoable ε φ τ α} {s s' : σ}
    {a : α} {tokens : List (σ -> σ)} (h : zoom l m s = .ok a s' tokens) :
    exists t tokens', m (l.get s) = .ok a t tokens' ∧ s' = l.set t s := by
  unfold zoom at h
  cases hrun : m (l.get s) with
  | ok b t tokens' =>
      rw [hrun] at h
      cases h
      exact ⟨t, tokens', rfl, rfl⟩
  | error e t tokens' =>
      rw [hrun] at h
      cases h
  | fault c =>
      rw [hrun] at h
      cases h

section Laws

variable {l : Lens σ τ}

theorem zoom_pure (hset : forall s, l.set (l.get s) s = s) (a : α) :
    zoom l (pure a : Undoable ε φ τ α) = pure a := by
  funext s
  show Outcome.ok a (l.set (l.get s) s) [] = Outcome.ok a s []
  rw [hset]

theorem zoom_bind (hget : forall t s, l.get (l.set t s) = t)
    (hset : forall t t' s, l.set t (l.set t' s) = l.set t s)
    (m : Undoable ε φ τ α) (f : α -> Undoable ε φ τ β) :
    zoom l (m >>= f) = zoom l m >>= fun a => zoom l (f a) := by
  funext s
  show zoom l (Undoable.bind m f) s =
    Undoable.bind (zoom l m) (fun a => zoom l (f a)) s
  unfold zoom Undoable.bind
  dsimp only
  cases m (l.get s) with
  | ok a t earlier =>
      dsimp only
      rw [hget]
      cases f a t with
      | ok b u later => simp [hset]
      | error e u later => simp [hset]
      | fault c => rfl
  | error e t earlier => rfl
  | fault c => rfl

end Laws

/-!
## Larger states
-/

/-- Run a computation over a larger state, of which only a part is kept
afterwards. -/
def onLarger (enlarge : τ -> σ) (part : σ -> τ) (m : Undoable ε φ σ α) :
    Undoable ε φ τ α := fun t =>
  let onPart := fun (token : σ -> σ) (t : τ) => part (token (enlarge t))
  match m (enlarge t) with
  | .ok a s tokens => .ok a (part s) (tokens.map onPart)
  | .error e s tokens => .error e (part s) (tokens.map onPart)
  | .fault c => .fault c

end Undoable
