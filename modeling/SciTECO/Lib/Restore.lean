import SciTECO.Lib.Leads

/-!
# Undo logs which are exact

A computation restores its state if running its tokens leads back to the state
in which it was started, also after an error.  This may be meant up to a
relation between states, when some part of the state is restored by a token
of the caller.
-/

namespace Undoable

variable {ε φ σ α β : Type} {r : σ -> σ -> Prop}

/-- The tokens of `m` lead back to `s` from every state which is related to the
one that was reached. -/
def RestoresAt (r : σ -> σ -> Prop) (m : Undoable ε φ σ α) (s : σ) : Prop :=
  match m s with
  | .ok _ t tokens => forall u, r u t -> r (unwind tokens u) s
  | .error _ t tokens => forall u, r u t -> r (unwind tokens u) s
  | .fault _ => True

/-- From any state. -/
def Restores (r : σ -> σ -> Prop) (m : Undoable ε φ σ α) : Prop :=
  forall s, RestoresAt r m s

theorem RestoresAt.bind {m : Undoable ε φ σ α} {f : α -> Undoable ε φ σ β}
    {s : σ} (hm : RestoresAt r m s)
    (hf : forall a t tokens, m s = .ok a t tokens -> RestoresAt r (f a) t) :
    RestoresAt r (m >>= f) s := by
  show RestoresAt r (Undoable.bind m f) s
  unfold RestoresAt at hm hf ⊢
  unfold Undoable.bind
  cases hrun : m s with
  | ok a t earlier =>
      rw [hrun] at hm
      have hnext := hf a t earlier hrun
      dsimp only
      cases hstep : f a t with
      | ok b v later =>
          rw [hstep] at hnext
          intro u hu
          rw [unwind_append]
          exact hm _ (hnext u hu)
      | error e v later =>
          rw [hstep] at hnext
          intro u hu
          rw [unwind_append]
          exact hm _ (hnext u hu)
      | fault c => trivial
  | error e t earlier =>
      rw [hrun] at hm
      exact hm
  | fault c => trivial

theorem RestoresAt.of_ok {m : Undoable ε φ σ α} {s t : σ} {a : α}
    {tokens : List (σ -> σ)} (hrun : m s = .ok a t tokens)
    (h : forall u, r u t -> r (unwind tokens u) s) : RestoresAt r m s := by
  unfold RestoresAt
  rw [hrun]
  exact h

/-- A change that the relation does not see needs no token. -/
theorem RestoresAt.modify {g : σ -> σ} {s : σ}
    (h : forall u, r u (g s) -> r u s) :
    RestoresAt r (Undoable.modify g : Undoable ε φ σ Unit) s :=
  RestoresAt.of_ok rfl h

/-- The token restores what the rest may leave behind. -/
theorem RestoresAt.guarded {r' : σ -> σ -> Prop} {token : σ -> σ}
    {m : Undoable ε φ σ α} {s : σ} (hr : forall u t, r u t -> r' u t)
    (hm : RestoresAt r' m s) (htoken : forall u, r' u s -> r (token u) s) :
    RestoresAt r (Undoable.emit token >>= fun _ => m) s := by
  show RestoresAt r (Undoable.bind (Undoable.emit token) (fun _ => m)) s
  unfold RestoresAt at hm ⊢
  unfold Undoable.bind Undoable.emit
  dsimp only
  cases hrun : m s with
  | ok a t tokens =>
      rw [hrun] at hm
      intro u hu
      rw [unwind_append]
      exact htoken _ (hm u (hr u t hu))
  | error e t tokens =>
      rw [hrun] at hm
      intro u hu
      rw [unwind_append]
      exact htoken _ (hm u (hr u t hu))
  | fault c => trivial

/-- Tokens of a computation on a part of the state. -/
theorem unwind_onPart {τ : Type} {l : Lens σ τ}
    (hget : forall t s, l.get (l.set t s) = t)
    (hset : forall t t' s, l.set t (l.set t' s) = l.set t s) {u : σ}
    (hsame : l.set (l.get u) u = u) (tokens : List (τ -> τ)) :
    unwind (tokens.map l.onPart) u = l.set (unwind tokens (l.get u)) u := by
  induction tokens generalizing u with
  | nil => exact hsame.symm
  | cons token tokens ih =>
      rw [List.map_cons, unwind_cons, unwind_cons]
      unfold Lens.onPart at ih ⊢
      rw [ih (by rw [hget, hset]), hget, hset]

theorem RestoresAt.zoom {τ : Type} {q : τ -> τ -> Prop} {l : Lens σ τ}
    {m : Undoable ε φ τ α} {s : σ} (hm : RestoresAt q m (l.get s))
    (hget : forall t s, l.get (l.set t s) = t)
    (hset : forall t t' s, l.set t (l.set t' s) = l.set t s)
    (hpart : forall u t, r u (l.set t s) ->
      l.set (l.get u) u = u ∧ q (l.get u) t)
    (hwhole : forall u t v, r u (l.set t s) -> q v (l.get s) ->
      r (l.set v u) s) :
    RestoresAt r (Undoable.zoom l m) s := by
  unfold RestoresAt at hm ⊢
  unfold Undoable.zoom
  cases hrun : m (l.get s) with
  | ok a t tokens =>
      rw [hrun] at hm
      intro u hu
      rcases hpart u t hu with ⟨hsame, hq⟩
      rw [unwind_onPart hget hset hsame]
      exact hwhole u t _ hu (hm _ hq)
  | error e t tokens =>
      rw [hrun] at hm
      intro u hu
      rcases hpart u t hu with ⟨hsame, hq⟩
      rw [unwind_onPart hget hset hsame]
      exact hwhole u t _ hu (hm _ hq)
  | fault c => trivial

/-- What is restored for two relations is restored for both. -/
theorem RestoresAt.and {r' : σ -> σ -> Prop} {m : Undoable ε φ σ α} {s : σ}
    (h : RestoresAt r m s) (h' : RestoresAt r' m s) :
    RestoresAt (fun u t => r u t ∧ r' u t) m s := by
  unfold RestoresAt at h h' ⊢
  cases hrun : m s with
  | ok a t tokens =>
      rw [hrun] at h h'
      exact fun u hu => ⟨h u hu.1, h' u hu.2⟩
  | error e t tokens =>
      rw [hrun] at h h'
      exact fun u hu => ⟨h u hu.1, h' u hu.2⟩
  | fault c => trivial

/-- An error is raised again after the rest has been done. -/
theorem RestoresAt.ensuring {m : Undoable ε φ σ α}
    {after : Undoable ε φ σ Unit} {s : σ} {q : σ -> Prop}
    (hm : RestoresAt r m s) (hq : Leads (fun _ t _ => q t) m s)
    (hafter : forall t, q t -> RestoresAt r after t) :
    RestoresAt r (Undoable.ensuring m after) s := by
  unfold RestoresAt at hm hafter ⊢
  unfold Undoable.ensuring Undoable.bind
  cases hrun : m s with
  | ok a t earlier =>
      rw [hrun] at hm
      have hnext := hafter t (hq.ok hrun)
      dsimp only
      cases hstep : after t with
      | ok b v later =>
          rw [hstep] at hnext
          intro u hu
          dsimp only [Undoable.pure, List.nil_append]
          rw [unwind_append]
          exact hm _ (hnext u hu)
      | error e v later =>
          rw [hstep] at hnext
          intro u hu
          rw [unwind_append]
          exact hm _ (hnext u hu)
      | fault c => trivial
  | error e t earlier =>
      rw [hrun] at hm
      have hnext := hafter t (hq.error hrun)
      dsimp only
      cases hstep : after t with
      | ok b v later =>
          rw [hstep] at hnext
          intro u hu
          dsimp only [Undoable.throw, List.nil_append]
          rw [unwind_append]
          exact hm _ (hnext u hu)
      | error e' v later =>
          rw [hstep] at hnext
          intro u hu
          rw [unwind_append]
          exact hm _ (hnext u hu)
      | fault c => trivial
  | fault c => trivial

/-- The state is restored, but after an error only under a condition. -/
def RestoresIf (p : Prop) (r : σ -> σ -> Prop) (m : Undoable ε φ σ α)
    (s : σ) : Prop :=
  match m s with
  | .ok _ t tokens => forall u, r u t -> r (unwind tokens u) s
  | .error _ t tokens => p -> forall u, r u t -> r (unwind tokens u) s
  | .fault _ => True

namespace RestoresIf

variable {p : Prop}

theorem bind {m : Undoable ε φ σ α} {f : α -> Undoable ε φ σ β} {s : σ}
    (hm : RestoresIf p r m s)
    (hf : forall a t tokens, m s = .ok a t tokens ->
      RestoresIf p r (f a) t) : RestoresIf p r (m >>= f) s := by
  show RestoresIf p r (Undoable.bind m f) s
  unfold RestoresIf at hm hf ⊢
  unfold Undoable.bind
  cases hrun : m s with
  | ok a t earlier =>
      rw [hrun] at hm
      have hnext := hf a t earlier hrun
      dsimp only
      cases hstep : f a t with
      | ok b v later =>
          rw [hstep] at hnext
          intro u hu
          rw [unwind_append]
          exact hm _ (hnext u hu)
      | error e v later =>
          rw [hstep] at hnext
          intro hp u hu
          rw [unwind_append]
          exact hm _ (hnext hp u hu)
      | fault c => trivial
  | error e t earlier =>
      rw [hrun] at hm
      exact hm
  | fault c => trivial

theorem mono {p' : Prop} {m : Undoable ε φ σ α} {s : σ}
    (h : RestoresIf p r m s) (hp : p' -> p) : RestoresIf p' r m s := by
  unfold RestoresIf at h ⊢
  cases hrun : m s with
  | ok a t tokens =>
      rw [hrun] at h
      exact h
  | error e t tokens =>
      rw [hrun] at h
      exact fun hp' => h (hp hp')
  | fault c => trivial

/-- A change around a computation that does not see it.  It is saved when the
computation has succeeded. -/
theorem around {τ : Type} {l : Lens σ τ} {m : Undoable ε φ τ α} {g : σ -> σ}
    {token : σ -> σ -> σ} {s : σ} (hm : RestoresAt r (zoom l m) s)
    (hget : l.get (g s) = l.get s)
    (hset : forall t, l.set t (g s) = g (l.set t s))
    (htoken : forall t u, r u (g (l.set t s)) ->
      r (token (g (l.set t s)) u) (l.set t s)) :
    RestoresIf False r (do
      Undoable.modify g
      let _ <- zoom l m
      let t <- Undoable.get
      Undoable.emit (token t)) s := by
  unfold RestoresAt at hm
  unfold RestoresIf
  simp only [Bind.bind, Undoable.bind, Undoable.modify, Undoable.get,
    Undoable.emit]
  unfold zoom at hm ⊢
  rw [hget]
  cases hrun : m (l.get s) with
  | ok a t tokens =>
      rw [hrun] at hm
      intro u hu
      rw [hset] at hu
      have hback := hm _ (htoken t u hu)
      rw [<- hset] at hback
      simpa using hback
  | error e t tokens => exact fun h => h.elim
  | fault c => trivial

end RestoresIf

namespace Restores

theorem pure (a : α) : Restores r (Pure.pure a : Undoable ε φ σ α) :=
  fun _ _ h => h

theorem get : Restores r (Undoable.get : Undoable ε φ σ σ) := fun _ _ h => h

theorem throw (e : ε) : Restores r (Undoable.throw e : Undoable ε φ σ α) :=
  fun _ _ h => h

theorem fault (c : φ) : Restores r (Undoable.fault c : Undoable ε φ σ α) :=
  fun _ => trivial

theorem bind {m : Undoable ε φ σ α} {f : α -> Undoable ε φ σ β}
    (hm : Restores r m) (hf : forall a, Restores r (f a)) :
    Restores r (m >>= f) :=
  fun s => (hm s).bind (fun a t _ _ => hf a t)

/-- A computation which reads the state first. -/
theorem read {f : σ -> Undoable ε φ σ β}
    (h : forall s, RestoresAt r (f s) s) :
    Restores r ((Undoable.get : Undoable ε φ σ σ) >>= f) := by
  intro s
  apply RestoresAt.bind (get s)
  intro a t tokens hrun
  cases hrun
  exact h s

theorem ite {c : Prop} [Decidable c] {m n : Undoable ε φ σ α}
    (hm : Restores r m) (hn : Restores r n) :
    Restores r (if c then m else n) := by
  split
  · exact hm
  · exact hn

theorem ofExcept (result : Except (Stop ε φ) α) :
    Restores r (Undoable.ofExcept result : Undoable ε φ σ α) := by
  rcases result with (e | c) | a
  · exact throw e
  · exact fault c
  · exact pure a

/-- A change with the token that takes it back. -/
theorem change {token g : σ -> σ} {s : σ}
    (h : forall u, r u (g s) -> r (token u) s) :
    RestoresAt r
      (Undoable.emit token >>= fun _ => Undoable.modify g :
        Undoable ε φ σ Unit) s :=
  RestoresAt.of_ok rfl h

/-- Errors are caught, and the caller goes on. -/
theorem handle {m : Undoable ε φ σ α} {handler : ε -> Undoable ε φ σ α}
    (hm : Restores r m) (hhandler : forall e, Restores r (handler e)) :
    Restores r (Undoable.handle m handler) := by
  intro s
  have hs := hm s
  unfold RestoresAt at hs ⊢
  unfold Undoable.handle
  cases hrun : m s with
  | ok a t tokens =>
      rw [hrun] at hs
      exact hs
  | error e t earlier =>
      rw [hrun] at hs
      have hnext := hhandler e t
      unfold RestoresAt at hnext
      dsimp only [Undoable.bind]
      cases hstep : handler e t with
      | ok b v later =>
          rw [hstep] at hnext
          intro u hu
          rw [unwind_append]
          exact hs _ (hnext u hu)
      | error e' v later =>
          rw [hstep] at hnext
          intro u hu
          rw [unwind_append]
          exact hs _ (hnext u hu)
      | fault c => trivial
  | fault c => trivial

/-- The exact case. -/
theorem unwind_ok {m : Undoable ε φ σ α} (h : Restores Eq m) {s t : σ}
    {a : α} {tokens : List (σ -> σ)} (hrun : m s = .ok a t tokens) :
    unwind tokens t = s := by
  have hs := h s
  unfold RestoresAt at hs
  rw [hrun] at hs
  exact hs t rfl

end Restores

end Undoable
