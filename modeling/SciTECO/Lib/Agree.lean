import SciTECO.Lib.Lens

/-!
# Computations which agree

Two computations agree if they return the same value, throw the same error or
fault in the same way.  A postcondition relates the states in which they return.
-/

namespace Undoable

variable {ε φ σ τ α β : Type}

/-- `m` from `s` and `n` from `t` end in the same way. -/
def Agree (post : α -> σ -> τ -> Prop) (m : Undoable ε φ σ α)
    (n : Undoable ε φ τ α) (s : σ) (t : τ) : Prop :=
  match m s, n t with
  | .ok a s' _, .ok b t' _ => a = b ∧ post a s' t'
  | .error e _ _, .error e' _ _ => e = e'
  | .fault c, .fault c' => c = c'
  | _, _ => False

namespace Agree

variable {post : α -> σ -> τ -> Prop} {m : Undoable ε φ σ α}
  {n : Undoable ε φ τ α} {s : σ} {t : τ}

theorem pure {a : α} (h : post a s t) :
    Agree post (Pure.pure a : Undoable ε φ σ α) (Pure.pure a) s t :=
  ⟨rfl, h⟩

theorem throw (e : ε) :
    Agree post (Undoable.throw e : Undoable ε φ σ α) (Undoable.throw e) s t :=
  rfl

theorem fault (c : φ) :
    Agree post (Undoable.fault c : Undoable ε φ σ α) (Undoable.fault c) s t :=
  rfl

theorem modify {f : σ -> σ} {g : τ -> τ} {post : Unit -> σ -> τ -> Prop}
    (h : post () (f s) (g t)) :
    Agree post (Undoable.modify f : Undoable ε φ σ Unit) (Undoable.modify g)
      s t :=
  ⟨rfl, h⟩

theorem emit {f : σ -> σ} {g : τ -> τ} {post : Unit -> σ -> τ -> Prop}
    (h : post () s t) :
    Agree post (Undoable.emit f : Undoable ε φ σ Unit) (Undoable.emit g) s t :=
  ⟨rfl, h⟩

theorem mono {post' : α -> σ -> τ -> Prop} (h : Agree post m n s t)
    (hpost : forall a s' t', post a s' t' -> post' a s' t') :
    Agree post' m n s t := by
  unfold Agree at h ⊢
  split at h
  · exact ⟨h.1, hpost _ _ _ h.2⟩
  · exact h
  · exact h
  · exact h.elim

theorem bind {f : α -> Undoable ε φ σ β} {g : α -> Undoable ε φ τ β}
    {post' : β -> σ -> τ -> Prop} (h : Agree post m n s t)
    (hfg : forall a s' t', post a s' t' -> Agree post' (f a) (g a) s' t') :
    Agree post' (m >>= f) (n >>= g) s t := by
  show Agree post' (Undoable.bind m f) (Undoable.bind n g) s t
  unfold Agree at h
  unfold Agree Undoable.bind
  cases hm : m s with
  | ok a s' tokens =>
      cases hn : n t with
      | ok b t' tokens' =>
          rw [hm, hn] at h
          rcases h with ⟨rfl, hpost⟩
          have hnext := hfg a s' t' hpost
          unfold Agree at hnext
          dsimp only
          cases hf : f a s' <;> cases hg : g a t' <;> rw [hf, hg] at hnext <;>
            exact hnext
      | error e t' tokens' => rw [hm, hn] at h; exact h.elim
      | fault c => rw [hm, hn] at h; exact h.elim
  | error e s' tokens =>
      cases hn : n t with
      | ok b t' tokens' => rw [hm, hn] at h; exact h.elim
      | error e' t' tokens' => rw [hm, hn] at h; exact h
      | fault c => rw [hm, hn] at h; exact h.elim
  | fault c =>
      cases hn : n t with
      | ok b t' tokens' => rw [hm, hn] at h; exact h.elim
      | error e' t' tokens' => rw [hm, hn] at h; exact h.elim
      | fault c' => rw [hm, hn] at h; exact h

/-- What holds when the second computation returns. -/
theorem wp_right {spec : α -> τ -> Prop} (h : Agree post m n s t)
    (hspec : wp n spec (fun _ _ => True) (fun _ => True) t) :
    Agree (fun a s' t' => post a s' t' ∧ spec a t') m n s t := by
  unfold Agree at h ⊢
  unfold wp at hspec
  cases hm : m s <;> cases hn : n t <;> rw [hm, hn] at h <;>
    rw [hn] at hspec
  case ok.ok =>
    rcases h with ⟨rfl, hpost⟩
    exact ⟨rfl, hpost, hspec⟩
  all_goals exact h

theorem of_result {a : α} {s' : σ} {t' : τ} (hm : result m s = .ok (a, s'))
    (hn : result n t = .ok (a, t')) (h : post a s' t') :
    Agree post m n s t := by
  unfold result at hm hn
  unfold Agree
  cases hrun : m s <;> rw [hrun] at hm <;> cases hm
  cases hrun' : n t <;> rw [hrun'] at hn <;> cases hn
  exact ⟨rfl, h⟩

/-- Both read their states. -/
theorem read {f : σ -> Undoable ε φ σ β} {g : τ -> Undoable ε φ τ β}
    {post' : β -> σ -> τ -> Prop} (h : Agree post' (f s) (g t) s t) :
    Agree post' (Undoable.get >>= f) (Undoable.get >>= g) s t := by
  show Agree post' (Undoable.bind Undoable.get f)
    (Undoable.bind Undoable.get g) s t
  unfold Agree at h
  unfold Agree Undoable.bind Undoable.get
  dsimp only
  cases hf : f s s <;> cases hg : g t t <;> rw [hf, hg] at h <;> exact h

/-- Computations on parts of the states. -/
theorem zoom {σ' τ' : Type} {l : Lens σ' σ} {k : Lens τ' τ} {s' : σ'} {t' : τ'}
    {post' : α -> σ' -> τ' -> Prop} (h : Agree post m n (l.get s') (k.get t'))
    (hpost : forall a u v, post a u v ->
      post' a (l.set u s') (k.set v t')) :
    Agree post' (Undoable.zoom l m) (Undoable.zoom k n) s' t' := by
  unfold Agree at h
  unfold Agree Undoable.zoom
  cases hm : m (l.get s') <;> cases hn : n (k.get t') <;> rw [hm, hn] at h
  case ok.ok => exact ⟨h.1, hpost _ _ _ h.2⟩
  all_goals exact h

/-- The values are the same, whatever becomes of the states. -/
theorem value (h : Agree post m n s t) :
    (result m s).map Prod.fst = (result n t).map Prod.fst := by
  unfold Agree at h
  unfold result
  cases hm : m s <;> cases hn : n t <;> rw [hm, hn] at h
  case ok.ok => exact congrArg Except.ok h.1
  case error.error => exact congrArg (fun e => Except.error (Stop.error e)) h
  case fault.fault => exact congrArg (fun c => Except.error (Stop.fault c)) h
  all_goals exact h.elim

end Agree

end Undoable
