import SciTECO.BufferRing.Contents

/-!
# Undoing changes to the ring

While a register is edited, nothing restores `teco_ring_current`: the edited
buffer is taken back when the register is left.  Contents are alike if they
differ at most in this.  The tokens of a command lead from contents like those
after it to contents like those before it.
-/

namespace SciTECO
namespace BufferRing

open TailQueue

/-- A buffer which is not freed and not in the ring. -/
def Contents.closed (a : Contents) (id : BufferId) : Prop :=
  (a.buffers id).isSome ∧ id ∉ a.order

instance (a : Contents) (id : BufferId) : Decidable (a.closed id) := by
  unfold Contents.closed
  exact inferInstance

/-- The same document is edited, as far as it can be told. -/
structure SameFocus (f g : Focus) : Prop where
  qregCurrent : f.qregCurrent = g.qregCurrent
  current : g.qregCurrent = none -> f.current = g.current
  shown : g.qregCurrent = none -> f.shown = g.shown

/-- The same buffers are in the ring, and the same ones can return to it. -/
structure SameRing (a b : Contents) : Prop where
  order : a.order = b.order
  buffers : a.buffers = b.buffers
  after : forall id, b.closed id -> a.after id = b.after id

structure Alike (a b : Contents) : Prop where
  ring : SameRing a b
  focus : SameFocus a.focus b.focus

theorem SameFocus.refl (f : Focus) : SameFocus f f :=
  ⟨rfl, fun _ => rfl, fun _ => rfl⟩

theorem SameFocus.trans {f g k : Focus} (h : SameFocus f g)
    (h' : SameFocus g k) : SameFocus f k := by
  constructor
  · exact h.qregCurrent.trans h'.qregCurrent
  · intro hnone
    exact (h.current (h'.qregCurrent.trans hnone)).trans (h'.current hnone)
  · intro hnone
    exact (h.shown (h'.qregCurrent.trans hnone)).trans (h'.shown hnone)

theorem SameRing.refl (a : Contents) : SameRing a a :=
  ⟨rfl, rfl, fun _ _ => rfl⟩

theorem SameRing.closed {a b : Contents} (h : SameRing a b) (id : BufferId) :
    a.closed id <-> b.closed id := by
  unfold Contents.closed
  rw [h.order, h.buffers]

theorem SameRing.trans {a b c : Contents} (h : SameRing a b)
    (h' : SameRing b c) : SameRing a c := by
  refine ⟨h.order.trans h'.order, h.buffers.trans h'.buffers, ?_⟩
  intro id hid
  exact (h.after id ((h'.closed id).mpr hid)).trans (h'.after id hid)

theorem SameRing.setFocus {a b : Contents} (h : SameRing a b)
    (focus : Focus) : SameRing { a with focus := focus } b :=
  ⟨h.order, h.buffers, h.after⟩

theorem Alike.refl (a : Contents) : Alike a a :=
  ⟨SameRing.refl a, SameFocus.refl _⟩

theorem Alike.trans {a b c : Contents} (h : Alike a b) (h' : Alike b c) :
    Alike a c :=
  ⟨h.ring.trans h'.ring, h.focus.trans h'.focus⟩

/-- The tokens lead back from `a'` to `a`. -/
def Undoes (a : Contents) (tokens : List Token) (a' : Contents) : Prop :=
  forall x, Alike x a' -> exists y, Contents.applyAll tokens x = some y ∧
    Alike y a

theorem applyAll_append (later earlier : List Token) (a : Contents) :
    Contents.applyAll (later ++ earlier) a =
      (Contents.applyAll later a).bind (Contents.applyAll earlier) := by
  induction later generalizing a with
  | nil => rfl
  | cons token later ih =>
      have hcons : forall tokens, Contents.applyAll (token :: tokens) a =
          (Contents.apply token a).bind (Contents.applyAll tokens) :=
        fun tokens => rfl
      rw [List.cons_append, hcons, hcons]
      cases Contents.apply token a with
      | none => rfl
      | some b => exact ih b

theorem Undoes.refl (a : Contents) : Undoes a [] a :=
  fun x hx => ⟨x, rfl, hx⟩

theorem Undoes.trans {a b c : Contents} {earlier later : List Token}
    (h : Undoes a earlier b) (h' : Undoes b later c) :
    Undoes a (later ++ earlier) c := by
  intro x hx
  rcases h' x hx with ⟨y, hy, halike⟩
  rcases h y halike with ⟨z, hz, hz'⟩
  refine ⟨z, ?_, hz'⟩
  rw [applyAll_append, hy]
  exact hz

theorem Undoes.of_alike {a b b' : Contents} {tokens : List Token}
    (h : Undoes a tokens b) (halike : Alike b' b) : Undoes a tokens b' :=
  fun x hx => h x (hx.trans halike)

/-- How many times a buffer is owned by the tokens that insert it again. -/
def owned (tokens : List Token) (id : BufferId) : Nat :=
  tokens.count (.reinsert id)

theorem owned_append (later earlier : List Token) (id : BufferId) :
    owned (later ++ earlier) id = owned later id + owned earlier id :=
  List.count_append

/-- The tokens own the buffers that have been closed. -/
def Owns (a : Contents) (tokens : List Token) (a' : Contents) : Prop :=
  forall id, (if a'.closed id then 1 else 0) =
    (if a.closed id then 1 else 0) + owned tokens id

theorem Owns.trans {a b c : Contents} {earlier later : List Token}
    (h : Owns a earlier b) (h' : Owns b later c) :
    Owns a (later ++ earlier) c := by
  intro id
  rw [h' id, h id, owned_append, Nat.add_assoc, Nat.add_comm (owned earlier id)]

/-!
## Running tokens
-/

/-- Only the part of a state that is undone differs. -/
structure Around (s t : State) : Prop where
  nextBuffer : t.nextBuffer = s.nextBuffer
  undoEnabled : t.undoEnabled = s.undoEnabled
  pc : t.pc = s.pc
  heads : t.heads = s.heads
  len : t.len = s.len

theorem Around.refl (s : State) : Around s s := ⟨rfl, rfl, rfl, rfl, rfl⟩

theorem Around.trans {s t u : State} (h : Around s t) (h' : Around t u) :
    Around s u :=
  ⟨h'.nextBuffer.trans h.nextBuffer, h'.undoEnabled.trans h.undoEnabled,
    h'.pc.trans h.pc, h'.heads.trans h.heads, h'.len.trans h.len⟩

theorem runToken_spec {s : State} {a a' : Contents} {token : Token}
    (h : Shape s a) (hrun : Contents.apply token a = some a') :
    exists t, s.runToken token = some t ∧ Shape t a' ∧ Around s t := by
  cases token with
  | qregCurrent value =>
      cases hrun
      refine ⟨_, rfl, ?_, rfl, rfl, rfl, rfl, rfl⟩
      have hfocus := h.setFocus { a.focus with qregCurrent := value }
      rw [<- h.focus] at hfocus ⊢
      exact hfocus
  | ringCurrent value =>
      cases hrun
      refine ⟨_, rfl, ?_, rfl, rfl, rfl, rfl, rfl⟩
      have hfocus := h.setFocus { a.focus with current := value }
      rw [<- h.focus] at hfocus ⊢
      exact hfocus
  | showView view =>
      cases view with
      | qregs =>
          cases hrun
          refine ⟨_, rfl, ?_, rfl, rfl, rfl, rfl, rfl⟩
          have hfocus := h.setFocus { a.focus with shown := some .qregs }
          rw [<- h.focus] at hfocus ⊢
          exact hfocus
      | buffer id =>
          cases hbuffer : a.buffers id with
          | none =>
              dsimp only [Contents.apply] at hrun
              rw [hbuffer] at hrun
              cases hrun
          | some buffer =>
              dsimp only [Contents.apply] at hrun
              rw [hbuffer] at hrun
              cases hrun
              refine ⟨{ s with
                focus := { s.focus with shown := some (.buffer id) } },
                ?_, ?_, rfl, rfl, rfl, rfl, rfl⟩
              · exact h.bufferEdit_eq hbuffer
              · have hfocus :=
                  h.setFocus { a.focus with shown := some (.buffer id) }
                rw [<- h.focus] at hfocus ⊢
                exact hfocus
  | infoUpdate id =>
      cases hbuffer : a.buffers id with
      | none =>
          dsimp only [Contents.apply] at hrun
          rw [hbuffer] at hrun
          cases hrun
      | some buffer =>
          dsimp only [Contents.apply] at hrun
          rw [hbuffer] at hrun
          cases hrun
          refine ⟨s, ?_, h, Around.refl s⟩
          show (s.buffers id).bind (fun _ => some s) = _
          rw [h.buffers, hbuffer]
          rfl
  | bufferFree id =>
      cases hbuffer : a.buffers id with
      | none =>
          dsimp only [Contents.apply] at hrun
          rw [hbuffer] at hrun
          cases hrun
      | some buffer =>
          dsimp only [Contents.apply] at hrun
          rw [hbuffer] at hrun
          change (if id ∈ a.order then none else _) = _ at hrun
          split at hrun
          · cases hrun
          · rename_i hid
            cases hrun
            rcases h.free hid (by rw [hbuffer]; rfl) with ⟨t, ht, hshape, rfl⟩
            exact ⟨_, ht, hshape, rfl, rfl, rfl, rfl, rfl⟩
  | removeBuffer id =>
      dsimp only [Contents.apply] at hrun
      split at hrun
      · rename_i hid
        cases hrun
        rcases h.remove hid with ⟨links, hlinks, hshape⟩
        rcases Option.isSome_iff_exists.mp (h.isSome_of_mem hid) with
          ⟨buffer, hbuffer⟩
        exact ⟨_, h.ringRemoveBuffer_eq hbuffer hlinks, hshape,
          rfl, rfl, rfl, rfl, rfl⟩
      · cases hrun
  | reinsert id =>
      cases hbuffer : a.buffers id with
      | none =>
          dsimp only [Contents.apply] at hrun
          rw [hbuffer] at hrun
          cases hrun
      | some buffer =>
          dsimp only [Contents.apply] at hrun
          rw [hbuffer] at hrun
          change (if id ∈ a.order then none else _) = _ at hrun
          split at hrun
          · cases hrun
          · rename_i hid
            split at hrun
            · rename_i hnext
              cases hrun
              rcases h.reinsert hid (by rw [hbuffer]; rfl) hnext with
                ⟨t, ht, hshape, links, rfl⟩
              exact ⟨_, ht, hshape, rfl, rfl, rfl, rfl, rfl⟩
            · cases hrun
  | dirty id value =>
      cases hbuffer : a.buffers id with
      | none =>
          dsimp only [Contents.apply] at hrun
          rw [hbuffer] at hrun
          cases hrun
      | some buffer =>
          dsimp only [Contents.apply] at hrun
          rw [hbuffer] at hrun
          cases hrun
          exact ⟨_, h.bufferSetDirty_eq hbuffer value,
            h.setBuffer (by rw [hbuffer]; rfl) _, rfl, rfl, rfl, rfl, rfl⟩
  | filename id value =>
      cases hbuffer : a.buffers id with
      | none =>
          dsimp only [Contents.apply] at hrun
          rw [hbuffer] at hrun
          cases hrun
      | some buffer =>
          dsimp only [Contents.apply] at hrun
          rw [hbuffer] at hrun
          cases hrun
          exact ⟨_, h.bufferSetFilename_eq hbuffer value,
            h.setBuffer (by rw [hbuffer]; rfl) _, rfl, rfl, rfl, rfl, rfl⟩

theorem runTokens_spec {s : State} {a a' : Contents} {tokens : List Token}
    (h : Shape s a) (hrun : Contents.applyAll tokens a = some a') :
    exists t, State.runTokens tokens s = some t ∧ Shape t a' ∧
      Around s t := by
  induction tokens generalizing s a with
  | nil =>
      cases hrun
      exact ⟨s, rfl, h, Around.refl s⟩
  | cons token tokens ih =>
      cases happly : Contents.apply token a with
      | none =>
          unfold Contents.applyAll at hrun
          rw [happly] at hrun
          cases hrun
      | some b =>
          unfold Contents.applyAll at hrun
          rw [happly] at hrun
          rcases runToken_spec h happly with ⟨t, ht, hshape, haround⟩
          rcases ih hshape hrun with ⟨u, hu, hshape', haround'⟩
          refine ⟨u, ?_, hshape', haround.trans haround'⟩
          unfold State.runTokens
          rw [ht]
          exact hu

end BufferRing
end SciTECO
