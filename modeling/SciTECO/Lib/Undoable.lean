import Mathlib.Tactic.Common

/-!
# Computations with an undo log

A computation over a state may succeed, fail with an error or crash.  While it
runs it registers undo tokens, which are functions on the state.  Taking a
computation back means to run its tokens, the most recent one first.

The state reached before an error is part of the outcome: a caller that catches
the error continues from that state, or it unwinds the tokens.
-/

/-- How a computation ends.  The tokens are listed with the latest one first. -/
inductive Outcome (ε φ σ α : Type) where
  | ok (value : α) (state : σ) (tokens : List (σ -> σ))
  | error (err : ε) (state : σ) (tokens : List (σ -> σ))
  | fault (cause : φ)

/-- Why a computation has no value. -/
inductive Stop (ε φ : Type) where
  | error (err : ε)
  | fault (cause : φ)
deriving DecidableEq, Repr

/-- Computations with errors `ε`, crashes `φ` and an undo log over `σ`. -/
def Undoable (ε φ σ α : Type) : Type := σ -> Outcome ε φ σ α

namespace Undoable

variable {ε φ σ τ α β : Type}

/-!
## Operations
-/

/-- Run tokens against a state, in list order. -/
def unwind (tokens : List (σ -> σ)) (s : σ) : σ :=
  tokens.foldl (fun s token => token s) s

@[simp] theorem unwind_nil (s : σ) : unwind [] s = s := rfl

@[simp] theorem unwind_cons (token : σ -> σ) (tokens : List (σ -> σ))
    (s : σ) :
    unwind (token :: tokens) s = unwind tokens (token s) := rfl

theorem unwind_append (later earlier : List (σ -> σ)) (s : σ) :
    unwind (later ++ earlier) s = unwind earlier (unwind later s) := by
  simp [unwind, List.foldl_append]

protected def pure (a : α) : Undoable ε φ σ α := fun s => .ok a s []

protected def bind (m : Undoable ε φ σ α) (f : α -> Undoable ε φ σ β) :
    Undoable ε φ σ β := fun s =>
  match m s with
  | .ok a s' earlier =>
      match f a s' with
      | .ok b s'' later => .ok b s'' (later ++ earlier)
      | .error e s'' later => .error e s'' (later ++ earlier)
      | .fault c => .fault c
  | .error e s' earlier => .error e s' earlier
  | .fault c => .fault c

instance : Monad (Undoable ε φ σ) where
  pure := Undoable.pure
  bind := Undoable.bind

instance : LawfulMonad (Undoable ε φ σ) := by
  refine LawfulMonad.mk' (Undoable ε φ σ) ?_ ?_ ?_
  · intro α m
    funext s
    change Undoable.bind m Undoable.pure s = m s
    unfold Undoable.bind Undoable.pure
    cases m s <;> rfl
  · intro α β a f
    funext s
    change Undoable.bind (Undoable.pure a) f s = f a s
    unfold Undoable.bind Undoable.pure
    dsimp only
    cases hf : f a s <;> simp
  · intro α β γ m f g
    funext s
    change Undoable.bind (Undoable.bind m f) g s =
      Undoable.bind m (fun a => Undoable.bind (f a) g) s
    unfold Undoable.bind
    cases m s with
    | ok a s' earlier =>
        dsimp only
        cases f a s' with
        | ok b s'' later =>
            dsimp only
            cases g b s'' <;> simp [List.append_assoc]
        | error e s'' later => rfl
        | fault c => rfl
    | error e s' earlier => rfl
    | fault c => rfl

def get : Undoable ε φ σ σ := fun s => .ok s s []

def modify (f : σ -> σ) : Undoable ε φ σ Unit := fun s => .ok () (f s) []

/-- Register an undo token. -/
def emit (token : σ -> σ) : Undoable ε φ σ Unit := fun s => .ok () s [token]

def throw (e : ε) : Undoable ε φ σ α := fun s => .error e s []

def fault (c : φ) : Undoable ε φ σ α := fun _ => .fault c

/-- Continue with `handler` after an error, from the state it has left. -/
def handle (m : Undoable ε φ σ α) (handler : ε -> Undoable ε φ σ α) :
    Undoable ε φ σ α := fun s =>
  match m s with
  | .error e s' earlier =>
      Undoable.bind (fun _ => .ok () s' earlier) (fun _ => handler e) s
  | outcome => outcome

/-- Run `after` in any case.  An error of `m` is raised again afterwards. -/
def ensuring (m : Undoable ε φ σ α) (after : Undoable ε φ σ Unit) :
    Undoable ε φ σ α := fun s =>
  match m s with
  | .error e s' earlier =>
      Undoable.bind (fun _ => .ok () s' earlier)
        (fun _ => Undoable.bind after (fun _ => throw e)) s
  | outcome =>
      Undoable.bind (fun _ => outcome)
        (fun a => Undoable.bind after (fun _ => Undoable.pure a)) s

/-- Continue with a value, or stop. -/
def ofExcept : Except (Stop ε φ) α -> Undoable ε φ σ α
  | .ok a => Undoable.pure a
  | .error (.error e) => throw e
  | .error (.fault c) => fault c

/-!
## Sequences
-/

theorem bind_ok {m : Undoable ε φ σ α} {f : α -> Undoable ε φ σ β}
    {s u : σ} {b : β} {tokens : List (σ -> σ)}
    (h : (m >>= f) s = .ok b u tokens) :
    exists a t earlier later, m s = .ok a t earlier ∧
      f a t = .ok b u later ∧ tokens = later ++ earlier := by
  change Undoable.bind m f s = _ at h
  unfold Undoable.bind at h
  cases hrun : m s with
  | ok a t earlier =>
      rw [hrun] at h
      dsimp only at h
      cases hstep : f a t with
      | ok b' u' later =>
          rw [hstep] at h
          cases h
          exact ⟨a, t, earlier, later, rfl, hstep, rfl⟩
      | error e u' later =>
          rw [hstep] at h
          cases h
      | fault c =>
          rw [hstep] at h
          cases h
  | error e t earlier =>
      rw [hrun] at h
      cases h
  | fault c =>
      rw [hrun] at h
      cases h

theorem bind_error {m : Undoable ε φ σ α} {f : α -> Undoable ε φ σ β}
    {s u : σ} {e : ε} {tokens : List (σ -> σ)}
    (h : (m >>= f) s = .error e u tokens) :
    m s = .error e u tokens ∨
      exists a t earlier later, m s = .ok a t earlier ∧
        f a t = .error e u later ∧ tokens = later ++ earlier := by
  change Undoable.bind m f s = _ at h
  unfold Undoable.bind at h
  cases hrun : m s with
  | ok a t earlier =>
      rw [hrun] at h
      dsimp only at h
      cases hstep : f a t with
      | ok b' u' later =>
          rw [hstep] at h
          cases h
      | error e' u' later =>
          rw [hstep] at h
          cases h
          exact Or.inr ⟨a, t, earlier, later, rfl, hstep, rfl⟩
      | fault c =>
          rw [hstep] at h
          cases h
  | error e' t earlier =>
      rw [hrun] at h
      cases h
      exact Or.inl rfl
  | fault c =>
      rw [hrun] at h
      cases h

/-!
## Running a computation without its log

`result` forgets the tokens and the state left behind by an error.  It turns
sequencing into sequencing of `Except`, so that two computations can be
compared by rewriting.
-/

def result (m : Undoable ε φ σ α) (s : σ) :
    Except (Stop ε φ) (α × σ) :=
  match m s with
  | .ok a s' _ => .ok (a, s')
  | .error e _ _ => .error (.error e)
  | .fault c => .error (.fault c)

@[simp] theorem result_pure (a : α) (s : σ) :
    result (pure a : Undoable ε φ σ α) s = .ok (a, s) := rfl

theorem result_bind (m : Undoable ε φ σ α) (f : α -> Undoable ε φ σ β)
    (s : σ) :
    result (m >>= f) s =
      (result m s >>= fun p => result (f p.1) p.2) := by
  change result (Undoable.bind m f) s = _
  unfold result Undoable.bind
  cases m s with
  | ok a s' earlier =>
      show (match (match f a s' with
          | .ok b s'' later => Outcome.ok b s'' (later ++ earlier)
          | .error e s'' later => .error e s'' (later ++ earlier)
          | .fault c => .fault c) with
        | .ok b s'' _ => Except.ok (b, s'')
        | .error e _ _ => .error (Stop.error e)
        | .fault c => .error (Stop.fault c)) = result (f a) s'
      unfold result
      cases f a s' <;> rfl
  | error e s' earlier => rfl
  | fault c => rfl

theorem result_bind_of_ok {m : Undoable ε φ σ α}
    {f : α -> Undoable ε φ σ β} {a : α} {s t : σ}
    (h : result m s = .ok (a, t)) :
    result (m >>= f) s = result (f a) t := by
  rw [result_bind, h]
  rfl

@[simp] theorem result_get (s : σ) :
    result (get : Undoable ε φ σ σ) s = .ok (s, s) := rfl

@[simp] theorem result_modify (f : σ -> σ) (s : σ) :
    result (modify f : Undoable ε φ σ Unit) s = .ok ((), f s) := rfl

@[simp] theorem result_emit (token : σ -> σ) (s : σ) :
    result (emit token : Undoable ε φ σ Unit) s = .ok ((), s) := rfl

@[simp] theorem result_throw (e : ε) (s : σ) :
    result (throw e : Undoable ε φ σ α) s = .error (.error e) := rfl

@[simp] theorem result_fault (c : φ) (s : σ) :
    result (fault c : Undoable ε φ σ α) s = .error (.fault c) := rfl

/-!
## Preconditions

`wp m post fail bad` holds of the states from which `m` ends well: a value
satisfies `post`, an error `fail` and a crash `bad`.  The simp set computes it
along a program text.
-/

def wp (m : Undoable ε φ σ α) (post : α -> σ -> Prop)
    (fail : ε -> σ -> Prop) (bad : φ -> Prop) (s : σ) : Prop :=
  match m s with
  | .ok a s' _ => post a s'
  | .error e s' _ => fail e s'
  | .fault c => bad c

section Rules

variable {post : α -> σ -> Prop} {fail : ε -> σ -> Prop} {bad : φ -> Prop}
variable {s : σ}

@[simp] theorem wp_pure (a : α) :
    wp (pure a : Undoable ε φ σ α) post fail bad s <-> post a s := Iff.rfl

@[simp] theorem wp_bind (m : Undoable ε φ σ α)
    (f : α -> Undoable ε φ σ β) {post : β -> σ -> Prop} :
    wp (m >>= f) post fail bad s <->
      wp m (fun a s' => wp (f a) post fail bad s') fail bad s := by
  change wp (Undoable.bind m f) post fail bad s <-> _
  unfold wp Undoable.bind
  cases m s with
  | ok a s' earlier => cases h : f a s' <;> simp [h]
  | error e s' earlier => exact Iff.rfl
  | fault c => exact Iff.rfl

@[simp] theorem wp_get {post : σ -> σ -> Prop} :
    wp (get : Undoable ε φ σ σ) post fail bad s <-> post s s := Iff.rfl

@[simp] theorem wp_modify (f : σ -> σ) {post : Unit -> σ -> Prop} :
    wp (modify f : Undoable ε φ σ Unit) post fail bad s <->
      post () (f s) := Iff.rfl

@[simp] theorem wp_emit (token : σ -> σ) {post : Unit -> σ -> Prop} :
    wp (emit token : Undoable ε φ σ Unit) post fail bad s <->
      post () s := Iff.rfl

@[simp] theorem wp_throw (e : ε) :
    wp (throw e : Undoable ε φ σ α) post fail bad s <-> fail e s := Iff.rfl

@[simp] theorem wp_fault (c : φ) :
    wp (fault c : Undoable ε φ σ α) post fail bad s <-> bad c := Iff.rfl

@[simp] theorem wp_handle (m : Undoable ε φ σ α)
    (handler : ε -> Undoable ε φ σ α) :
    wp (handle m handler) post fail bad s <->
      wp m post (fun e s' => wp (handler e) post fail bad s') bad s := by
  unfold wp handle Undoable.bind
  cases m s with
  | ok a s' earlier => exact Iff.rfl
  | error e s' earlier => cases h : handler e s' <;> simp [h]
  | fault c => exact Iff.rfl

@[simp] theorem wp_ensuring (m : Undoable ε φ σ α)
    (after : Undoable ε φ σ Unit) :
    wp (ensuring m after) post fail bad s <->
      wp m (fun a s' => wp after (fun _ t => post a t) fail bad s')
        (fun e s' => wp after (fun _ t => fail e t) fail bad s') bad s := by
  unfold wp ensuring Undoable.bind
  cases m s with
  | ok a s' earlier => cases h : after s' <;> simp [h, Undoable.pure]
  | error e s' earlier => cases h : after s' <;> simp [h, throw]
  | fault c => exact Iff.rfl

@[simp] theorem wp_map (f : α -> β) (m : Undoable ε φ σ α)
    {post : β -> σ -> Prop} :
    wp (f <$> m) post fail bad s <->
      wp m (fun a s' => post (f a) s') fail bad s := by
  rw [<- bind_pure_comp, wp_bind]
  exact Iff.rfl

theorem wp_ofExcept (r : Except (Stop ε φ) α) :
    wp (ofExcept r : Undoable ε φ σ α) post fail bad s <->
      match r with
      | .ok a => post a s
      | .error (.error e) => fail e s
      | .error (.fault c) => bad c := by
  rcases r with (e | c) | a <;> exact Iff.rfl

@[simp] theorem wp_ite (c : Prop) [Decidable c]
    (m n : Undoable ε φ σ α) :
    wp (if c then m else n) post fail bad s <->
      if c then wp m post fail bad s else wp n post fail bad s := by
  by_cases h : c <;> simp [h]

theorem wp_mono {m : Undoable ε φ σ α} {post' : α -> σ -> Prop}
    {fail' : ε -> σ -> Prop} {bad' : φ -> Prop}
    (h : wp m post fail bad s)
    (hpost : forall a s', post a s' -> post' a s')
    (hfail : forall e s', fail e s' -> fail' e s')
    (hbad : forall c, bad c -> bad' c) :
    wp m post' fail' bad' s := by
  unfold wp at h ⊢
  cases hm : m s with
  | ok a s' tokens =>
      rw [hm] at h
      exact hpost a s' h
  | error e s' tokens =>
      rw [hm] at h
      exact hfail e s' h
  | fault c =>
      rw [hm] at h
      exact hbad c h

/-- Conditions which always hold. -/
theorem wp_of_forall {m : Undoable ε φ σ α}
    (hpost : forall a s', post a s') (hfail : forall e s', fail e s')
    (hbad : forall c, bad c) : wp m post fail bad s := by
  unfold wp
  cases m s with
  | ok a s' tokens => exact hpost a s'
  | error e s' tokens => exact hfail e s'
  | fault c => exact hbad c

/-- The rule for a call: a specification of `m` that fits the caller's
conditions for errors and crashes leaves the continuation to be proved. -/
theorem wp_call {m : Undoable ε φ σ α} {post' : α -> σ -> Prop}
    (h : wp m post fail bad s)
    (hpost : forall a s', post a s' -> post' a s') :
    wp m post' fail bad s :=
  wp_mono h hpost (fun _ _ he => he) (fun _ hc => hc)

theorem wp_bind_of_ok {m : Undoable ε φ σ α} {f : α -> Undoable ε φ σ β}
    {a : α} {s' : σ} {post : β -> σ -> Prop}
    (h : result m s = .ok (a, s')) :
    wp (m >>= f) post fail bad s <-> wp (f a) post fail bad s' := by
  rw [wp_bind]
  unfold result at h
  unfold wp
  cases hm : m s with
  | ok b t tokens =>
      rw [hm] at h
      cases h
      exact Iff.rfl
  | error e t tokens =>
      rw [hm] at h
      cases h
  | fault c =>
      rw [hm] at h
      cases h

theorem wp_result {m : Undoable ε φ σ α} {a : α} {s' : σ}
    (h : wp m post fail bad s) (hrun : result m s = .ok (a, s')) :
    post a s' := by
  unfold wp at h
  unfold result at hrun
  cases hm : m s with
  | ok b t tokens =>
      rw [hm] at h hrun
      cases hrun
      exact h
  | error e t tokens =>
      rw [hm] at hrun
      cases hrun
  | fault c =>
      rw [hm] at hrun
      cases hrun

/-- A value is one that the computation returns. -/
theorem wp_returns (m : Undoable ε φ σ α) (s : σ) :
    wp m (fun a s' => exists tokens, m s = .ok a s' tokens)
      (fun _ _ => True) (fun _ => True) s := by
  unfold wp
  cases hm : m s with
  | ok a s' tokens => exact ⟨tokens, rfl⟩
  | error e s' tokens => trivial
  | fault c => trivial

theorem wp_of_ok {m : Undoable ε φ σ α} {a : α} {s' : σ}
    {tokens : List (σ -> σ)} (hrun : m s = .ok a s' tokens)
    (h : post a s') : wp m post fail bad s := by
  unfold wp
  rw [hrun]
  exact h

theorem wp_ok {m : Undoable ε φ σ α} {a : α} {s' : σ}
    {tokens : List (σ -> σ)} (h : wp m post fail bad s)
    (hrun : m s = .ok a s' tokens) : post a s' := by
  simpa [wp, hrun] using h

/-- Where nothing can go wrong there is a result. -/
theorem exists_ok_of_wp {m : Undoable ε φ σ α}
    (h : wp m post (fun _ _ => False) (fun _ => False) s) :
    exists a t tokens, m s = .ok a t tokens ∧ post a t := by
  unfold wp at h
  cases hm : m s with
  | ok a t tokens =>
      rw [hm] at h
      exact ⟨a, t, tokens, rfl, h⟩
  | error e t tokens =>
      rw [hm] at h
      exact absurd h id
  | fault c =>
      rw [hm] at h
      exact absurd h id

/-- What follows a computation may be replaced where it is reached. -/
theorem result_bind_congr {m : Undoable ε φ σ α}
    {f g : α -> Undoable ε φ σ β}
    (h : wp m post fail bad s)
    (hfg : forall a t, post a t -> result (f a) t = result (g a) t) :
    result (m >>= f) s = result (m >>= g) s := by
  rw [result_bind, result_bind]
  unfold wp at h
  unfold result
  cases hm : m s with
  | ok a t tokens =>
      rw [hm] at h
      exact hfg a t h
  | error e t tokens => rfl
  | fault c => rfl

/-- Equivalent postconditions. -/
theorem wp_iff {m : Undoable ε φ σ α} {post' : α -> σ -> Prop}
    (h : forall a t, post a t <-> post' a t) :
    wp m post fail bad s <-> wp m post' fail bad s :=
  ⟨fun hwp => wp_call hwp (fun a t => (h a t).mp),
    fun hwp => wp_call hwp (fun a t => (h a t).mpr)⟩

theorem wp_of_fault {m : Undoable ε φ σ α} {c : φ}
    (h : wp m post fail bad s) (hrun : m s = .fault c) : bad c := by
  simpa [wp, hrun] using h

/-- The rule for a call with two specifications, one of which says nothing
about errors and crashes. -/
theorem wp_call_and {m : Undoable ε φ σ α} {post' post'' : α -> σ -> Prop}
    (h : wp m post fail bad s)
    (h' : wp m post' (fun _ _ => True) (fun _ => True) s)
    (hpost : forall a s', post a s' -> post' a s' -> post'' a s') :
    wp m post'' fail bad s := by
  unfold wp at h h' ⊢
  cases hm : m s with
  | ok a s' tokens =>
      rw [hm] at h h'
      exact hpost a s' h h'
  | error e s' tokens =>
      rw [hm] at h
      exact h
  | fault c =>
      rw [hm] at h
      exact h

/-- Two continuations are the same if they agree on what `m` can return. -/
theorem wp_congr {m : Undoable ε φ σ α} {post' spec : α -> σ -> Prop}
    (h : wp m spec (fun _ _ => True) (fun _ => True) s)
    (hpost : forall a s', spec a s' -> (post a s' <-> post' a s')) :
    wp m post fail bad s <-> wp m post' fail bad s := by
  unfold wp at h ⊢
  cases hm : m s with
  | ok a s' tokens =>
      rw [hm] at h
      exact hpost a s' h
  | error e s' tokens => exact Iff.rfl
  | fault c => exact Iff.rfl

/-- The outcome of a computation in terms of its preconditions. -/
theorem result_eq_iff_wp {m : Undoable ε φ σ α}
    {r : Except (Stop ε φ) (α × σ)} :
    result m s = r <->
      wp m (fun a s' => r = .ok (a, s')) (fun e _ => r = .error (.error e))
        (fun c => r = .error (.fault c)) s := by
  unfold result wp
  cases m s <;> exact eq_comm

/-- Computations with the same preconditions have the same results. -/
theorem result_congr_of_wp {m n : Undoable ε φ σ α} {t : σ}
    (h : forall (post : α -> σ -> Prop) (fail : ε -> σ -> Prop)
      (bad : φ -> Prop), wp m post fail bad s <-> wp n post fail bad t) :
    result m s = result n t :=
  result_eq_iff_wp.mpr ((h _ _ _).mpr (result_eq_iff_wp.mp rfl))

/-- What holds for a result holds if there is one. -/
theorem wp_of_result {m : Undoable ε φ σ α}
    (h : forall a t, result m s = .ok (a, t) -> post a t) :
    wp m post (fun _ _ => True) (fun _ => True) s := by
  unfold result at h
  unfold wp
  cases hm : m s with
  | ok a t tokens =>
      rw [hm] at h
      exact h a t rfl
  | error e t tokens => trivial
  | fault c => trivial

end Rules

end Undoable
