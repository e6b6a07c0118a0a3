import SciTECO.BufferRing.Undoing

/-!
# What the commands do

Every command leads from the contents of the ring to other contents, and the
tokens it has registered lead back.  While undo is disabled a closed buffer is
freed, so that there is no way back.
-/

namespace SciTECO
namespace BufferRing

open TailQueue

/-!
## Registering tokens
-/

/-- There are no tokens behind the present position. -/
structure Tidy (s : State) : Prop where
  len_le : s.len ≤ s.pc + 1
  heads : forall i, s.len ≤ i -> s.heads i = []

/-- Tokens have been registered at the present position. -/
structure Logged (tokens : List Token) (s t : State) : Prop where
  undoEnabled : t.undoEnabled = s.undoEnabled
  pc : t.pc = s.pc
  heads : t.heads =
    if s.undoEnabled then
      Function.update s.heads s.pc (tokens ++ s.heads s.pc)
    else s.heads
  len : s.undoEnabled = false -> t.len = s.len

theorem Logged.refl (s : State) : Logged [] s s := by
  refine ⟨rfl, rfl, ?_, fun _ => rfl⟩
  rw [List.nil_append, Function.update_eq_self]
  split <;> rfl

theorem Logged.trans {s t u : State} {earlier later : List Token}
    (h : Logged earlier s t) (h' : Logged later t u) :
    Logged (later ++ earlier) s u := by
  refine ⟨h'.undoEnabled.trans h.undoEnabled, h'.pc.trans h.pc, ?_, ?_⟩
  · rw [h'.heads, h.heads, h.undoEnabled, h.pc]
    cases s.undoEnabled with
    | false => rfl
    | true =>
        simp only [if_pos, Function.update_idem, Function.update_self,
          List.append_assoc]
  · intro hundo
    rw [h'.len (h.undoEnabled.trans hundo), h.len hundo]

/-- Other fields do not matter. -/
theorem Logged.of_eq {s t u : State} {tokens : List Token}
    (h : Logged tokens s t) (hundo : u.undoEnabled = t.undoEnabled)
    (hpc : u.pc = t.pc) (hheads : u.heads = t.heads) (hlen : u.len = t.len) :
    Logged tokens s u := by
  refine ⟨hundo.trans h.undoEnabled, hpc.trans h.pc, ?_, ?_⟩
  · rw [hheads]
    exact h.heads
  · intro hdisabled
    rw [hlen]
    exact h.len hdisabled

/-- Nothing else has happened. -/
structure Pushed (tokens : List Token) (s t : State) : Prop where
  logged : Logged tokens s t
  tidy : Tidy t
  links : t.links = s.links
  buffers : t.buffers = s.buffers
  focus : t.focus = s.focus
  nextBuffer : t.nextBuffer = s.nextBuffer

theorem Pushed.refl {s : State} (h : Tidy s) : Pushed [] s s :=
  ⟨Logged.refl s, h, rfl, rfl, rfl, rfl⟩

theorem Pushed.trans {s t u : State} {earlier later : List Token}
    (h : Pushed earlier s t) (h' : Pushed later t u) :
    Pushed (later ++ earlier) s u :=
  ⟨h.logged.trans h'.logged, h'.tidy, h'.links.trans h.links,
    h'.buffers.trans h.buffers, h'.focus.trans h.focus,
    h'.nextBuffer.trans h.nextBuffer⟩

theorem Pushed.shape {s t : State} {tokens : List Token} {a : Contents}
    (h : Pushed tokens s t) (hs : Shape s a) : Shape t a :=
  hs.of_eq h.links h.buffers h.focus h.nextBuffer

theorem push_spec {s : State} (h : Tidy s) (token : Token) :
    exists t, s.push token = some t ∧ Pushed [token] s t := by
  unfold State.push
  split
  case isTrue hundo =>
      have hlen : max s.len (s.pc + 1) = s.pc + 1 :=
        Nat.max_eq_right h.len_le
      dsimp only
      rw [hlen, if_pos rfl]
      refine ⟨_, rfl, ⟨rfl, rfl, ?_, ?_⟩, ⟨Nat.le_refl _, ?_⟩,
        rfl, rfl, rfl, rfl⟩
      · rw [if_pos hundo]
        rfl
      · intro hdisabled
        rw [hdisabled] at hundo
        cases hundo
      · intro i hi
        have hne : i ≠ s.pc := by
          intro heq
          rw [heq] at hi
          exact absurd hi (Nat.not_succ_le_self _)
        show Function.update s.heads s.pc _ i = []
        rw [Function.update_of_ne hne]
        exact h.heads i (Nat.le_trans h.len_le hi)
  case isFalse hundo =>
      refine ⟨s, rfl, ⟨rfl, rfl, ?_, fun _ => rfl⟩, h, rfl, rfl, rfl, rfl⟩
      rw [if_neg hundo]

/-!
## The edited document
-/

/-- A buffer of the ring is edited and shown, unless a register is. -/
def Ready (a : Contents) : Prop :=
  a.focus.qregCurrent = none -> exists id, id ∈ a.order ∧
    a.focus.current = some id ∧ a.focus.shown = some (.buffer id)

theorem Ready.of_alike {a b : Contents} (h : Ready a) (halike : Alike b a) :
    Ready b := by
  intro hnone
  rw [halike.focus.qregCurrent] at hnone
  rcases h hnone with ⟨id, hid, hcurrent, hshown⟩
  refine ⟨id, ?_, ?_, ?_⟩
  · rw [halike.ring.order]
    exact hid
  · rw [halike.focus.current hnone, hcurrent]
  · rw [halike.focus.shown hnone, hshown]

/-- The tokens bring the edited document back, whatever it is in between. -/
structure Saves (tokens : List Token) (a : Contents) : Prop where
  restores : forall x : Contents, x.buffers = a.buffers ->
    exists focus, Contents.applyAll tokens x = some { x with focus := focus } ∧
      SameFocus focus a.focus
  owned : forall id, owned tokens id = 0

/-- The tokens of `teco_ring_undo_edit()`. -/
def ringTokens (qreg : Option Register) (id : BufferId) : List Token :=
  [.showView (.buffer id), .infoUpdate id, .ringCurrent (some id),
    .qregCurrent qreg]

theorem ringUndoEdit_spec {s : State} {a : Contents} {id : BufferId}
    (h : Shape s a) (ht : Tidy s) (hcurrent : a.focus.current = some id)
    (hlive : (a.buffers id).isSome) :
    exists t, s.ringUndoEdit = some t ∧
      Pushed (ringTokens a.focus.qregCurrent id) s t := by
  rcases Option.isSome_iff_exists.mp hlive with ⟨buffer, hbuffer⟩
  rcases push_spec ht (.qregCurrent s.focus.qregCurrent) with
    ⟨s₁, hrun₁, hpushed₁⟩
  rcases push_spec hpushed₁.tidy (.ringCurrent s₁.focus.current) with
    ⟨s₂, hrun₂, hpushed₂⟩
  rcases push_spec hpushed₂.tidy (.infoUpdate id) with
    ⟨s₃, hrun₃, hpushed₃⟩
  rcases push_spec hpushed₃.tidy (.showView (.buffer id)) with
    ⟨s₄, hrun₄, hpushed₄⟩
  have hcurrent₁ : s₁.focus.current = some id := by
    rw [hpushed₁.focus, h.focus]
    exact hcurrent
  have hcurrent₂ : s₂.focus.current = some id := by
    rw [hpushed₂.focus]
    exact hcurrent₁
  have hbuffer₂ : s₂.buffers id = some buffer := by
    rw [hpushed₂.buffers, hpushed₁.buffers, h.buffers]
    exact hbuffer
  refine ⟨s₄, ?_, ?_⟩
  · unfold State.ringUndoEdit State.undoQRegCurrent State.undoRingCurrent
      State.bufferUndoEdit
    simp only [hrun₁, hrun₂, hcurrent₂, hbuffer₂, hrun₃, hrun₄,
      Option.bind_eq_bind, Option.bind_some]
  · have hall := ((hpushed₁.trans hpushed₂).trans hpushed₃).trans hpushed₄
    rw [hcurrent₁, h.focus] at hall
    exact hall

theorem saves_ringTokens {a : Contents} (h : Ready a) {id : BufferId}
    (hcurrent : a.focus.current = some id) (hlive : (a.buffers id).isSome) :
    Saves (ringTokens a.focus.qregCurrent id) a := by
  rcases Option.isSome_iff_exists.mp hlive with ⟨buffer, hbuffer⟩
  constructor
  · intro x hx
    refine ⟨Focus.mk (some id) a.focus.qregCurrent (some (.buffer id)),
      ?_, rfl, ?_, ?_⟩
    · simp [ringTokens, Contents.applyAll, Contents.apply, hx, hbuffer]
    · intro _
      exact hcurrent.symm
    · intro hnone
      rcases h hnone with ⟨id', _, hcurrent', hshown⟩
      rw [hcurrent] at hcurrent'
      injection hcurrent' with heq
      rw [hshown, heq]
  · intro k
    simp [owned, ringTokens]

theorem currentDocUndoEdit_spec {s : State} {a : Contents}
    (h : Shape s a) (ht : Tidy s) (hready : Ready a) :
    exists t tokens, s.currentDocUndoEdit = some t ∧ Pushed tokens s t ∧
      Saves tokens a := by
  unfold State.currentDocUndoEdit
  rw [h.focus]
  cases hqreg : a.focus.qregCurrent with
  | none =>
      rcases hready hqreg with ⟨id, hid, hcurrent, _⟩
      have hlive := h.isSome_of_mem hid
      rcases ringUndoEdit_spec h ht hcurrent hlive with ⟨t, hrun, hpushed⟩
      exact ⟨t, _, hrun, hpushed, saves_ringTokens hready hcurrent hlive⟩
  | some qreg =>
      rcases push_spec ht (.qregCurrent s.focus.qregCurrent) with
        ⟨s₁, hrun₁, hpushed₁⟩
      have hvalue : s.focus.qregCurrent = some qreg := by
        rw [h.focus]
        exact hqreg
      have hother : forall focus : Focus, focus.qregCurrent = some qreg ->
          SameFocus focus a.focus := by
        intro focus hfocus
        refine ⟨hfocus.trans hqreg.symm, ?_, ?_⟩
        · intro hnone
          rw [hqreg] at hnone
          cases hnone
        · intro hnone
          rw [hqreg] at hnone
          cases hnone
      rw [hvalue] at hpushed₁
      cases hmust : qreg.mustUndo with
      | false =>
          refine ⟨s₁, _, ?_, hpushed₁, ?_, ?_⟩
          · unfold State.undoQRegCurrent
            simp [hrun₁, hmust]
          · intro x _
            exact ⟨_, rfl, hother _ rfl⟩
          · intro id
            simp [owned]
      | true =>
          rcases push_spec hpushed₁.tidy (.showView .qregs) with
            ⟨s₂, hrun₂, hpushed₂⟩
          refine ⟨s₂, _, ?_, hpushed₁.trans hpushed₂, ?_, ?_⟩
          · unfold State.undoQRegCurrent
            simp [hrun₁, hmust, hrun₂]
          · intro x _
            exact ⟨_, rfl, hother _ rfl⟩
          · intro id
            simp [owned]

/-!
## Taking back a change to the ring
-/

theorem removeFree_undone {x a : Contents} {id : BufferId} {buffer : Buffer}
    (hmem : id ∈ x.order) (horder : x.order.erase id = a.order)
    (hnot : id ∉ a.order) (hfresh : a.buffers id = none)
    (hbuffers : x.buffers = Function.update a.buffers id (some buffer))
    (hafter : forall k, a.closed k -> x.after k = a.after k) :
    exists y, Contents.applyAll [.removeBuffer id, .bufferFree id] x = some y ∧
      SameRing y a ∧ y.focus = x.focus := by
  have hnot' : id ∉ (x.remove id).order := by
    show id ∉ x.order.erase id
    rw [horder]
    exact hnot
  have hlive : (x.remove id).buffers id = some buffer := by
    show x.buffers id = some buffer
    rw [hbuffers, Function.update_self]
  refine ⟨(x.remove id).setBuffer id none, ?_, ⟨horder, ?_, ?_⟩, rfl⟩
  · unfold Contents.applyAll
    have hremove : Contents.apply (.removeBuffer id) x = some (x.remove id) :=
      if_pos hmem
    have hfree : Contents.apply (.bufferFree id) (x.remove id) =
        some ((x.remove id).setBuffer id none) := by
      dsimp only [Contents.apply]
      rw [hlive]
      exact if_neg hnot'
    rw [hremove]
    change (Contents.apply (.bufferFree id) (x.remove id)).bind _ = _
    rw [hfree]
    rfl
  · show Function.update x.buffers id none = a.buffers
    rw [hbuffers, Function.update_idem, <- hfresh, Function.update_eq_self]
  · intro k hk
    have hne : k ≠ id := by
      intro heq
      have hsome := hk.1
      rw [heq, hfresh] at hsome
      cases hsome
    show Function.update x.after id _ k = a.after k
    rw [Function.update_of_ne hne]
    exact hafter k hk

theorem reinsert_applied {x : Contents} {id : BufferId}
    (hlive : (x.buffers id).isSome) (hnot : id ∉ x.order)
    (hnext : forall next, x.after id = some next -> next ∈ x.order) :
    Contents.apply (.reinsert id) x = some (x.reinsert id) := by
  rcases Option.isSome_iff_exists.mp hlive with ⟨buffer, hbuffer⟩
  dsimp only [Contents.apply]
  rw [hbuffer]
  change (if id ∈ x.order then none else _) = _
  rw [if_neg hnot, if_pos hnext]

theorem closed_remove {a : Contents} {id : BufferId} (h : a.order.Nodup)
    (hlive : (a.buffers id).isSome) (k : BufferId) :
    (a.remove id).closed k <-> a.closed k ∨ k = id := by
  unfold Contents.closed
  show (a.buffers k).isSome ∧ k ∉ a.order.erase id <-> _
  rw [h.mem_erase_iff]
  constructor
  · intro hk
    by_cases heq : k = id
    · exact Or.inr heq
    · exact Or.inl ⟨hk.1, fun hmem => hk.2 ⟨heq, hmem⟩⟩
  · intro hk
    rcases hk with hk | rfl
    · exact ⟨hk.1, fun hmem => hk.2 hmem.2⟩
    · exact ⟨hlive, fun hmem => hmem.1 rfl⟩

/-- A closed buffer returns to its place. -/
theorem reinsert_undone {x a : Contents} {id : BufferId}
    (hnodup : a.order.Nodup) (hid : id ∈ a.order)
    (hlive : (a.buffers id).isSome) (hx : SameRing x (a.remove id)) :
    exists y, Contents.apply (.reinsert id) x = some y ∧ SameRing y a ∧
      y.focus = x.focus := by
  have hclosed := closed_remove hnodup hlive
  have horder : x.order = a.order.erase id := hx.order
  have hafter : x.after id = behind id a.order := by
    rw [hx.after id ((hclosed id).mpr (Or.inr rfl))]
    exact Function.update_self _ _ _
  refine ⟨x.reinsert id, reinsert_applied ?_ ?_ ?_, ⟨?_, hx.buffers, ?_⟩, rfl⟩
  · rw [hx.buffers]
    exact hlive
  · rw [horder, hnodup.mem_erase_iff]
    exact fun hmem => hmem.1 rfl
  · intro next hnext
    rw [hafter] at hnext
    rw [horder]
    exact behind_mem_erase hnodup hid hnext
  · show putBack (x.after id) id x.order = a.order
    rw [hafter, horder]
    exact putBack_erase hnodup hid
  · intro k hk
    have hne : k ≠ id := fun heq => hk.2 (heq ▸ hid)
    show x.after k = a.after k
    rw [hx.after k ((hclosed k).mpr (Or.inl hk))]
    exact Function.update_of_ne hne _ _

end BufferRing
end SciTECO
