import SciTECO.Lib.Lens

/-!
# What a computation keeps, and what it throws

A computation keeps a part of the state if it ends with the part it began with.
The part is given by a function that reads it.  What it throws is described by
a condition on errors.
-/

namespace Undoable

variable {ε φ σ τ ρ α β : Type} {f : σ -> ρ}

/-- Without an error, what `f` reads is the same as before. -/
def Keeps (f : σ -> ρ) (m : Undoable ε φ σ α) : Prop :=
  forall s, wp m (fun _ t => f t = f s) (fun _ _ => True) (fun _ => True) s

namespace Keeps

theorem pure (a : α) : Keeps f (Pure.pure a : Undoable ε φ σ α) :=
  fun _ => rfl

theorem get : Keeps f (Undoable.get : Undoable ε φ σ σ) := fun _ => rfl

theorem emit (token : σ -> σ) :
    Keeps f (Undoable.emit token : Undoable ε φ σ Unit) := fun _ => rfl

theorem throw (e : ε) : Keeps f (Undoable.throw e : Undoable ε φ σ α) :=
  fun _ => trivial

theorem fault (c : φ) : Keeps f (Undoable.fault c : Undoable ε φ σ α) :=
  fun _ => trivial

theorem modify {g : σ -> σ} (h : forall s, f (g s) = f s) :
    Keeps f (Undoable.modify g : Undoable ε φ σ Unit) := fun s => h s

theorem bind {m : Undoable ε φ σ α} {g : α -> Undoable ε φ σ β}
    (hm : Keeps f m) (hg : forall a, Keeps f (g a)) :
    Keeps f (m >>= g) := by
  intro s
  rw [wp_bind]
  apply wp_call (hm s)
  intro a t ht
  apply wp_call (hg a t)
  intro _ u hu
  exact hu.trans ht

theorem ite {c : Prop} [Decidable c] {m n : Undoable ε φ σ α}
    (hm : Keeps f m) (hn : Keeps f n) : Keeps f (if c then m else n) := by
  split
  · exact hm
  · exact hn

/-- A computation that is left out in one case. -/
theorem guard {c : Prop} [Decidable c] {m : Undoable ε φ σ Unit}
    {k : Unit -> Undoable ε φ σ β} (hm : Keeps f m)
    (hk : forall u, Keeps f (k u)) :
    Keeps f (if c then k () else m >>= k) :=
  ite (hk ()) (bind hm hk)

/-- Work on a part that `f` does not read. -/
theorem zoom {l : Lens σ τ} (m : Undoable ε φ τ α)
    (h : forall t s, f (l.set t s) = f s) :
    Keeps f (Undoable.zoom l m) := by
  intro s
  rw [wp_zoom]
  unfold wp
  cases m (l.get s) with
  | ok a t tokens => exact h t s
  | error e t tokens => trivial
  | fault c => trivial

/-- What is read of a part that is kept is kept. -/
theorem comp {m : Undoable ε φ σ α} (h : Keeps f m) (g : ρ -> τ) :
    Keeps (fun s => g (f s)) m := by
  intro s
  apply wp_call (h s)
  intro _ t ht
  exact congrArg g ht

/-- What is kept holds afterwards. -/
theorem wp {m : Undoable ε φ σ α} (h : Keeps f m) {s : σ}
    {post : α -> σ -> Prop} {fail : ε -> σ -> Prop} {bad : φ -> Prop}
    (hpost : forall a t, f t = f s -> post a t)
    (hfail : forall e t, fail e t) (hbad : forall c, bad c) :
    Undoable.wp m post fail bad s :=
  wp_mono (h s) hpost (fun e t _ => hfail e t) (fun c _ => hbad c)

end Keeps

/-- A computation keeps a part of the state as long as it satisfies a
condition. -/
def KeepsWhere (p : ρ -> Prop) (f : σ -> ρ) (m : Undoable ε φ σ α) : Prop :=
  forall s, p (f s) ->
    wp m (fun _ t => f t = f s) (fun _ _ => True) (fun _ => True) s

namespace KeepsWhere

variable {p : ρ -> Prop}

theorem of_keeps {m : Undoable ε φ σ α} (h : Keeps f m) :
    KeepsWhere p f m := fun s _ => h s

theorem bind {m : Undoable ε φ σ α} {g : α -> Undoable ε φ σ β}
    (hm : KeepsWhere p f m) (hg : forall a, KeepsWhere p f (g a)) :
    KeepsWhere p f (m >>= g) := by
  intro s hs
  rw [wp_bind]
  apply wp_call (hm s hs)
  intro a t ht
  apply wp_call (hg a t (ht.symm ▸ hs))
  intro _ u hu
  exact hu.trans ht

theorem ite {c : Prop} [Decidable c] {m n : Undoable ε φ σ α}
    (hm : KeepsWhere p f m) (hn : KeepsWhere p f n) :
    KeepsWhere p f (if c then m else n) := by
  split
  · exact hm
  · exact hn

end KeepsWhere

/-- Every error satisfies a condition. -/
def Throws (p : ε -> Prop) (m : Undoable ε φ σ α) : Prop :=
  forall s, wp m (fun _ _ => True) (fun e _ => p e) (fun _ => True) s

namespace Throws

variable {p : ε -> Prop}

@[simp] theorem pure (a : α) :
    Throws p (Pure.pure a : Undoable ε φ σ α) := fun _ => trivial

@[simp] theorem get : Throws p (Undoable.get : Undoable ε φ σ σ) :=
  fun _ => trivial

@[simp] theorem modify (g : σ -> σ) :
    Throws p (Undoable.modify g : Undoable ε φ σ Unit) := fun _ => trivial

@[simp] theorem emit (token : σ -> σ) :
    Throws p (Undoable.emit token : Undoable ε φ σ Unit) := fun _ => trivial

@[simp] theorem fault (c : φ) :
    Throws p (Undoable.fault c : Undoable ε φ σ α) := fun _ => trivial

theorem throw {e : ε} (h : p e) :
    Throws p (Undoable.throw e : Undoable ε φ σ α) := fun _ => h

@[simp] theorem bind {m : Undoable ε φ σ α} {g : α -> Undoable ε φ σ β}
    (hm : Throws p m) (hg : forall a, Throws p (g a)) :
    Throws p (m >>= g) := by
  intro s
  rw [wp_bind]
  apply wp_call (hm s)
  intro a t _
  exact hg a t

@[simp] theorem ite {c : Prop} [Decidable c] {m n : Undoable ε φ σ α}
    (hm : Throws p m) (hn : Throws p n) :
    Throws p (if c then m else n) := by
  split
  · exact hm
  · exact hn

@[simp] theorem zoom {l : Lens σ τ} {m : Undoable ε φ τ α}
    (hm : Throws p m) : Throws p (Undoable.zoom l m) := by
  intro s
  rw [wp_zoom]
  exact hm (l.get s)

end Throws

end Undoable
