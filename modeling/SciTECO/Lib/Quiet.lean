import SciTECO.Lib.Leads

/-!
# Computations which leave a part of the state alone

Neither a quiet computation nor one of its tokens touches the part, whether it
ends with an error or not.
-/

namespace Undoable

variable {ε φ σ τ ρ α β : Type} {f : σ -> ρ}

/-- What `f` reads has not changed, and the tokens will not change it. -/
structure Untouched (f : σ -> ρ) (s t : σ) (tokens : List (σ -> σ)) :
    Prop where
  state : f t = f s
  tokens : forall token, token ∈ tokens -> forall u, f (token u) = f u

def Quiet (f : σ -> ρ) (m : Undoable ε φ σ α) : Prop :=
  forall s, Leads (Untouched f) m s

theorem untouched_composes : Composes (Untouched f) := by
  constructor
  · intro s
    constructor
    · rfl
    · intro token hmem
      cases hmem
  · intro s t u earlier later h h'
    constructor
    · exact h'.state.trans h.state
    · intro token hmem
      rcases List.mem_append.mp hmem with hmem | hmem
      · exact h'.tokens token hmem
      · exact h.tokens token hmem

namespace Quiet

theorem pure (a : α) : Quiet f (Pure.pure a : Undoable ε φ σ α) :=
  fun _ => Leads.pure untouched_composes a

theorem get : Quiet f (Undoable.get : Undoable ε φ σ σ) :=
  fun _ => Leads.get untouched_composes

theorem throw (e : ε) : Quiet f (Undoable.throw e : Undoable ε φ σ α) :=
  fun _ => Leads.throw untouched_composes e

theorem fault (c : φ) : Quiet f (Undoable.fault c : Undoable ε φ σ α) :=
  fun _ => trivial

theorem modify {g : σ -> σ} (h : forall s, f (g s) = f s) :
    Quiet f (Undoable.modify g : Undoable ε φ σ Unit) := by
  intro s
  constructor
  · exact h s
  · intro token hmem
    cases hmem

theorem emit {token : σ -> σ} (h : forall s, f (token s) = f s) :
    Quiet f (Undoable.emit token : Undoable ε φ σ Unit) := by
  intro s
  constructor
  · rfl
  · intro token' hmem
    rw [List.mem_singleton.mp hmem]
    exact h

theorem bind {m : Undoable ε φ σ α} {g : α -> Undoable ε φ σ β}
    (hm : Quiet f m) (hg : forall a, Quiet f (g a)) :
    Quiet f (m >>= g) :=
  fun s => Leads.bind untouched_composes (hm s) (fun a t _ _ => hg a t)

theorem ite {c : Prop} [Decidable c] {m n : Undoable ε φ σ α}
    (hm : Quiet f m) (hn : Quiet f n) : Quiet f (if c then m else n) :=
  fun s => Leads.ite (fun _ => hm s) (fun _ => hn s)

/-- A computation that is left out in one case. -/
theorem guard {c : Prop} [Decidable c] {m : Undoable ε φ σ Unit}
    {k : Unit -> Undoable ε φ σ β} (hm : Quiet f m)
    (hk : forall u, Quiet f (k u)) :
    Quiet f (if c then k () else m >>= k) :=
  ite (hk ()) (bind hm hk)

theorem ensuring {m : Undoable ε φ σ α} {after : Undoable ε φ σ Unit}
    (hm : Quiet f m) (hafter : Quiet f after) :
    Quiet f (Undoable.ensuring m after) :=
  fun s => Leads.ensuring untouched_composes (hm s) (fun t _ _ => hafter t)

/-- Work on a part of the state. -/
theorem zoom {l : Lens σ τ} {g : τ -> ρ} {m : Undoable ε φ τ α}
    (hm : Quiet g m) (hset : forall t s, f (l.set t s) = g t)
    (hget : forall s, g (l.get s) = f s) :
    Quiet f (Undoable.zoom l m) := by
  intro s
  apply Leads.zoom (hm (l.get s))
  intro t tokens h
  constructor
  · rw [hset, h.state, hget]
  · intro token hmem u
    rcases List.mem_map.mp hmem with ⟨part, hpart, heq⟩
    rw [<- heq]
    show f (l.set (part (l.get u)) u) = f u
    rw [hset, h.tokens part hpart, hget]

/-- Work on a part of the state that `f` does not read. -/
theorem zoom_apart {l : Lens σ τ} (m : Undoable ε φ τ α)
    (h : forall t s, f (l.set t s) = f s) :
    Quiet f (Undoable.zoom l m) := by
  intro s
  unfold Leads Undoable.zoom
  have htokens : forall tokens : List (τ -> τ),
      forall token, token ∈ tokens.map l.onPart ->
        forall u, f (token u) = f u := by
    intro tokens token hmem u
    rcases List.mem_map.mp hmem with ⟨part, _, heq⟩
    rw [<- heq]
    exact h _ u
  cases hrun : m (l.get s) with
  | ok a t tokens => exact ⟨h t s, htokens tokens⟩
  | error e t tokens => exact ⟨h t s, htokens tokens⟩
  | fault c => trivial

/-- Two parts at once. -/
theorem pair {g : σ -> τ} {m : Undoable ε φ σ α} (hf : Quiet f m)
    (hg : Quiet g m) : Quiet (fun s => (f s, g s)) m := by
  intro s
  have hfs := hf s
  have hgs := hg s
  have hboth : forall t tokens, Untouched f s t tokens ->
      Untouched g s t tokens ->
      Untouched (fun s => (f s, g s)) s t tokens := by
    intro t tokens h h'
    constructor
    · exact Prod.ext h.state h'.state
    · intro token hmem u
      exact Prod.ext (h.tokens token hmem u) (h'.tokens token hmem u)
  unfold Leads at hfs hgs ⊢
  cases hrun : m s with
  | ok a t tokens =>
      rw [hrun] at hfs hgs
      exact hboth t tokens hfs hgs
  | error e t tokens =>
      rw [hrun] at hfs hgs
      exact hboth t tokens hfs hgs
  | fault c => trivial

end Quiet

end Undoable
