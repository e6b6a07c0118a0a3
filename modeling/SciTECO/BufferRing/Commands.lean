import SciTECO.BufferRing.Effects

/-!
# The commands

One lemma for each function: it has a result, and what it does to the contents
of the ring is taken back by its tokens.
-/

namespace SciTECO
namespace BufferRing

open TailQueue

variable {s t : State} {a b : Contents}

/-- From `s` to `t`, and what the tokens are good for. -/
structure Effect (s : State) (a : Contents) (t : State) (b : Contents)
    (tokens : List Token) : Prop where
  shape : Shape t b
  tidy : Tidy t
  logged : Logged tokens s t
  undoes : s.undoEnabled = true -> Undoes a tokens b
  owns : Owns a (if s.undoEnabled then tokens else []) b

/-- A command has a result, with a property of the contents if it succeeds. -/
def EffectsTo (p : Contents -> Prop) (s : State) (a : Contents)
    (result : Result) : Prop :=
  exists error t b tokens, result = some (error, t) ∧
    Effect s a t b tokens ∧ (error = none -> p b)

/-- If a command succeeds, a buffer is edited or a register. -/
abbrev Effects (s : State) (a : Contents) (result : Result) : Prop :=
  EffectsTo Ready s a result

theorem Effect.refl (h : Shape s a) (ht : Tidy s) : Effect s a s a [] := by
  refine ⟨h, ht, Logged.refl s, fun _ => Undoes.refl a, ?_⟩
  intro id
  split <;> simp [owned]

theorem Effect.trans {u : State} {c : Contents} {earlier later : List Token}
    (h : Effect s a t b earlier) (h' : Effect t b u c later) :
    Effect s a u c (later ++ earlier) := by
  refine ⟨h'.shape, h'.tidy, h.logged.trans h'.logged, ?_, ?_⟩
  · intro hundo
    have hundo' : t.undoEnabled = true := by
      rw [h.logged.undoEnabled]
      exact hundo
    exact (h.undoes hundo).trans (h'.undoes hundo')
  · have howns := h.owns.trans h'.owns
    rw [h.logged.undoEnabled] at howns
    cases hundo : s.undoEnabled with
    | false =>
        rw [hundo] at howns
        exact howns
    | true =>
        rw [hundo] at howns
        exact howns

variable {p p' : Contents -> Prop}

theorem Effects.fails {tokens : List Token} (h : Effect s a t b tokens)
    (error : TecoError) : EffectsTo p s a (some (some error, t)) :=
  ⟨some error, t, b, tokens, rfl, h, fun hnone => by cases hnone⟩

theorem Effects.succeeds {tokens : List Token} (h : Effect s a t b tokens)
    (hready : p b) : EffectsTo p s a (some (none, t)) :=
  ⟨none, t, b, tokens, rfl, h, fun _ => hready⟩

theorem EffectsTo.mono {result : Result} (h : EffectsTo p s a result)
    (hp : forall b, p b -> p' b) : EffectsTo p' s a result := by
  rcases h with ⟨error, t, b, tokens, hresult, heffect, hpost⟩
  exact ⟨error, t, b, tokens, hresult, heffect,
    fun hnone => hp b (hpost hnone)⟩

/-- One command after another. -/
theorem EffectsTo.andThen {result : Result} {f : State -> Result}
    (h : EffectsTo p s a result)
    (hf : forall t b, Shape t b -> Tidy t -> p b -> EffectsTo p' t b (f t)) :
    EffectsTo p' s a (andThen result f) := by
  rcases h with ⟨error, t, b, tokens, rfl, heffect, hready⟩
  cases error with
  | some error => exact Effects.fails heffect error
  | none =>
      rcases hf t b heffect.shape heffect.tidy (hready rfl) with
        ⟨error, u, c, later, hrun, heffect', hready'⟩
      exact ⟨error, u, c, _, hrun, heffect.trans heffect', hready'⟩

/-!
## Editing a buffer of the ring
-/

theorem Owns.same {tokens : List Token}
    (howned : forall id, owned tokens id = 0)
    (hclosed : forall id, b.closed id <-> a.closed id) (undoEnabled : Bool) :
    Owns a (if undoEnabled then tokens else []) b := by
  intro id
  have hzero : owned (if undoEnabled = true then tokens else []) id = 0 := by
    split
    · exact howned id
    · rfl
  rw [hzero, Nat.add_zero]
  by_cases hid : a.closed id
  · rw [if_pos hid, if_pos ((hclosed id).mpr hid)]
  · rw [if_neg hid, if_neg (fun h => hid ((hclosed id).mp h))]

/-- Another document is edited. -/
theorem Effect.focus {tokens : List Token} (h : Shape s a)
    (hpushed : Pushed tokens s t) (hsaves : Saves tokens a) (focus : Focus) :
    Effect s a { t with focus := focus } { a with focus := focus } tokens := by
  refine ⟨(hpushed.shape h).setFocus focus,
    ⟨hpushed.tidy.len_le, hpushed.tidy.heads⟩,
    hpushed.logged.of_eq rfl rfl rfl rfl,
    ?_, Owns.same hsaves.owned (fun _ => Iff.rfl) _⟩
  intro _ x hx
  rcases hsaves.restores x hx.ring.buffers with ⟨focus', hrun, hsame⟩
  exact ⟨_, hrun, ⟨hx.ring.order, hx.ring.buffers, hx.ring.after⟩, hsame⟩

theorem ready_select {id : BufferId} (hid : id ∈ a.order) :
    Ready { a with
      focus := Focus.mk (some id) none (some (.buffer id)) } := by
  intro _
  exact ⟨id, hid, rfl, rfl⟩

theorem ringSelect_eq (h : Shape s a) {id : BufferId} (hid : id ∈ a.order) :
    s.ringSelect id = some { s with
      focus := Focus.mk (some id) none (some (.buffer id)) } := by
  rcases Option.isSome_iff_exists.mp (h.isSome_of_mem hid) with
    ⟨buffer, hbuffer⟩
  unfold State.ringSelect State.bufferEdit
  dsimp only
  rw [h.buffers, hbuffer]
  rfl

/-!
## Searching the ring
-/

/-- The loops over the ring end, and they find the first buffer that is
accepted. -/
theorem ringSearch_spec (h : Shape s a)
    {accept : Nat -> BufferId -> Option Bool} {p : Nat -> BufferId -> Bool}
    (haccept : forall i id, id ∈ a.order -> accept i id = some (p i id)) :
    s.ringSearch accept = some (firstFrom p 0 a.order) := by
  unfold State.ringSearch
  rw [h.represents.nextOf_head]
  exact h.represents.search haccept h.length_le

def hasName (a : Contents) (name : Option String) (id : BufferId) : Bool :=
  (a.buffers id).elim false (fun buffer => buffer.filename == name)

theorem ringFindByName_spec (h : Shape s a) (name : Option String) :
    s.ringFindByName name =
      some (firstFrom (fun _ id => hasName a name id) 0 a.order) := by
  refine ringSearch_spec h ?_
  intro _ id hid
  rcases Option.isSome_iff_exists.mp (h.isSome_of_mem hid) with
    ⟨buffer, hbuffer⟩
  unfold hasName
  rw [h.buffers, hbuffer]
  rfl

theorem ringFindById_spec (h : Shape s a) (number : Int) :
    s.ringFindById number =
      some (firstFrom (fun i _ => number - (i + 1 : Nat) == 0) 0 a.order) :=
  ringSearch_spec h (fun _ _ _ => rfl)

/-!
## Adding a buffer
-/

/-- A buffer has been added and is edited. -/
def Contents.added (id : BufferId) (buffer : Buffer) (a : Contents) :
    Contents :=
  { order := a.order ++ [id]
    buffers := Function.update a.buffers id (some buffer)
    after := a.after
    focus := Focus.mk (some id) none (some (.buffer id)) }

theorem ready_added (id : BufferId) (buffer : Buffer) (a : Contents) :
    Ready (a.added id buffer) := by
  intro _
  exact ⟨id, List.mem_append_right _ (List.mem_singleton_self _), rfl, rfl⟩

/-- The tokens of `teco_ring_undo_close()`. -/
def addTokens (id : BufferId) : List Token := [.removeBuffer id, .bufferFree id]

theorem ringUndoClose_spec (ht : Tidy s) {id : BufferId}
    (hcurrent : s.focus.current = some id) :
    exists t, s.ringUndoClose = some t ∧ Pushed (addTokens id) s t := by
  rcases push_spec ht (.bufferFree id) with ⟨s₁, hrun₁, hpushed₁⟩
  rcases push_spec hpushed₁.tidy (.removeBuffer id) with
    ⟨s₂, hrun₂, hpushed₂⟩
  refine ⟨s₂, ?_, hpushed₁.trans hpushed₂⟩
  unfold State.ringUndoClose
  simp only [hcurrent, hrun₁, hrun₂, Option.bind_eq_bind, Option.bind_some]

theorem ringAdd_spec (h : Shape s a) (ht : Tidy s) (file : Option File) :
    exists error t buffer, s.ringAdd file = some (error, t) ∧
      Shape t (a.added s.nextBuffer buffer) ∧ Tidy t ∧
      Logged (addTokens s.nextBuffer) s t ∧
      (file = none -> error = none) := by
  rcases h.add with ⟨links, hlinks, hshape⟩
  obtain ⟨s₁, hs₁⟩ : exists s₁ : State, s₁ = { s.bufferNew with
      links := links
      focus := { s.focus with
        current := some s.nextBuffer, qregCurrent := none } } := ⟨_, rfl⟩
  have hshape₁ : Shape s₁ { a.add s.nextBuffer with
      focus := { s.focus with
        current := some s.nextBuffer, qregCurrent := none } } := by
    rw [hs₁]
    exact hshape.setFocus _
  have htidy₁ : Tidy s₁ := by
    rw [hs₁]
    exact ⟨ht.len_le, ht.heads⟩
  have hlogged₁ : Logged [] s s₁ := by
    rw [hs₁]
    exact (Logged.refl s).of_eq rfl rfl rfl rfl
  have hcurrent₁ : s₁.focus.current = some s.nextBuffer := by
    rw [hs₁]
  rcases ringUndoClose_spec htidy₁ hcurrent₁ with
    ⟨s₂, hrun₂, hpushed₂⟩
  have hshape₂ := hpushed₂.shape hshape₁
  have hnew : (a.add s.nextBuffer).buffers s.nextBuffer =
      some { filename := none, dirty := false } :=
    Function.update_self _ _ _
  have hedit := hshape₂.bufferEdit_eq hnew
  obtain ⟨s₃, hs₃⟩ : exists s₃ : State, s₃ = { s₂ with
      focus := { s₂.focus with shown := some (.buffer s.nextBuffer) } } :=
    ⟨_, rfl⟩
  rw [<- hs₃] at hedit
  have hshape₃ : Shape s₃
      (a.added s.nextBuffer { filename := none, dirty := false }) := by
    have hfocus := hshape₂.setFocus
      { s₂.focus with shown := some (.buffer s.nextBuffer) }
    rw [<- hs₃] at hfocus
    have hsame : { s₂.focus with shown := some (.buffer s.nextBuffer) } =
        Focus.mk (some s.nextBuffer) none (some (.buffer s.nextBuffer)) := by
      rw [hpushed₂.focus, hs₁]
    rw [hsame] at hfocus
    exact hfocus
  have htidy₃ : Tidy s₃ := by
    rw [hs₃]
    exact ⟨hpushed₂.tidy.len_le, hpushed₂.tidy.heads⟩
  have hlogged₃ : Logged (addTokens s.nextBuffer) s s₃ := by
    have hall := hlogged₁.trans hpushed₂.logged
    rw [List.append_nil] at hall
    rw [hs₃]
    exact hall.of_eq rfl rfl rfl rfl
  have hnamed : forall name, exists t buffer,
      s₃.bufferSetFilename s.nextBuffer name = some t ∧
        Shape t (a.added s.nextBuffer buffer) ∧ Tidy t ∧
        Logged (addTokens s.nextBuffer) s t := by
    intro name
    have hbuffer : (a.added s.nextBuffer
        { filename := none, dirty := false }).buffers s.nextBuffer =
          some { filename := none, dirty := false } :=
      Function.update_self _ _ _
    have hset := hshape₃.setBuffer (by rw [hbuffer]; rfl)
      { filename := name, dirty := false }
    refine ⟨_, { filename := name, dirty := false },
      hshape₃.bufferSetFilename_eq hbuffer name, ?_,
      ⟨htidy₃.len_le, htidy₃.heads⟩,
      hlogged₃.of_eq rfl rfl rfl rfl⟩
    have hsame : (a.added s.nextBuffer
        { filename := none, dirty := false }).setBuffer s.nextBuffer
          (some { filename := name, dirty := false }) =
        a.added s.nextBuffer { filename := name, dirty := false } := by
      simp [Contents.setBuffer, Contents.added]
    rw [hsame] at hset
    exact hset
  have hbegin : s.ringAdd file = s₁.ringUndoClose.bind (fun t =>
      (t.bufferEdit s.nextBuffer).bind
        (State.ringLoad file s.nextBuffer)) := by
    rw [hs₁]
    unfold State.ringAdd
    change (insertTail s.nextBuffer s.bufferNew.links).bind _ = _
    rw [hlinks]
    rfl
  have hrun : s.ringAdd file = s₃.ringLoad file s.nextBuffer := by
    rw [hbegin, hrun₂]
    change (s₂.bufferEdit s.nextBuffer).bind _ = _
    rw [hedit]
    rfl
  rw [hrun]
  unfold State.ringLoad
  cases file with
  | none =>
      rcases hnamed none with ⟨t, buffer, hset, hshape, htidy, hlogged⟩
      refine ⟨none, t, buffer, ?_, hshape, htidy, hlogged, fun _ => rfl⟩
      simp [hset]
  | some file =>
      dsimp only
      split
      · exact ⟨_, s₃, _, rfl, hshape₃, htidy₃, hlogged₃,
          fun hfile => by cases hfile⟩
      · rcases hnamed (some file.resolved) with
          ⟨t, buffer, hset, hshape, htidy, hlogged⟩
        refine ⟨none, t, buffer, ?_, hshape, htidy, hlogged, fun _ => rfl⟩
        simp [hset]

theorem closed_added {id : BufferId} {buffer : Buffer}
    (hfresh : a.buffers id = none) (k : BufferId) :
    (a.added id buffer).closed k <-> a.closed k := by
  unfold Contents.closed
  show (Function.update a.buffers id (some buffer) k).isSome ∧
    k ∉ a.order ++ [id] <-> _
  by_cases hk : k = id
  · simp [hk, hfresh]
  · rw [Function.update_of_ne hk]
    simp [hk]

/-- The tokens of a new buffer take it away again. -/
theorem added_undone {x : Contents} {id : BufferId} {buffer : Buffer}
    (hfresh : a.buffers id = none) (hnot : id ∉ a.order)
    (hx : SameRing x (a.added id buffer)) :
    exists y, Contents.applyAll (addTokens id) x = some y ∧ SameRing y a ∧
      y.focus = x.focus := by
  have horder : x.order = a.order ++ [id] := hx.order
  refine removeFree_undone ?_ ?_ hnot hfresh hx.buffers ?_
  · rw [horder]
    exact List.mem_append_right _ (List.mem_singleton_self _)
  · rw [horder, erase_middle hnot, List.append_nil]
  · intro k hk
    exact hx.after k ((closed_added hfresh k).mpr hk)

theorem owned_addTokens (id k : BufferId) : owned (addTokens id) k = 0 := by
  simp [owned, addTokens]

theorem ringAdd_effect {tokens : List Token} (h : Shape s a)
    (hpushed : Pushed tokens s t) (hsaves : Saves tokens a)
    (file : Option File) :
    exists error u buffer, t.ringAdd file = some (error, u) ∧
      Effect s a u (a.added s.nextBuffer buffer)
        (addTokens s.nextBuffer ++ tokens) := by
  have hfresh := h.fresh
  have hnot := h.not_mem_of_none hfresh
  rcases ringAdd_spec (hpushed.shape h) hpushed.tidy file with
    ⟨error, u, buffer, hrun, hshape, htidy, hlogged, _⟩
  rw [hpushed.nextBuffer] at hshape hlogged
  refine ⟨error, u, buffer, hrun, hshape, htidy,
    hpushed.logged.trans hlogged, ?_, Owns.same ?_ (closed_added hfresh) _⟩
  · intro _ x hx
    rcases added_undone hfresh hnot hx.ring with ⟨y, hy, hsame, _⟩
    rcases hsaves.restores y hsame.buffers with ⟨focus, hz, hfocus⟩
    refine ⟨{ y with focus := focus }, ?_, hsame.setFocus focus, hfocus⟩
    rw [applyAll_append, hy]
    exact hz
  · intro id
    rw [owned_append, owned_addTokens, hsaves.owned]

theorem ringEditByName_effects {tokens : List Token} (h : Shape s a)
    (hpushed : Pushed tokens s t) (hsaves : Saves tokens a)
    (file : Option File) : Effects s a (t.ringEditByName file) := by
  have hshape := hpushed.shape h
  unfold State.ringEditByName
  rw [ringFindByName_spec hshape]
  cases hfound : firstFrom (fun _ id => hasName a (file.map File.resolved) id)
      0 a.order with
  | some found =>
      cases found with
      | mk i id =>
          have hid := mem_of_firstFrom hfound
          change Effects s a ((t.ringSelect id).bind _)
          rw [ringSelect_eq hshape hid]
          exact Effects.succeeds (Effect.focus h hpushed hsaves _)
            (ready_select hid)
  | none =>
      change Effects s a (t.ringAdd file)
      rcases ringAdd_effect h hpushed hsaves file with
        ⟨error, u, buffer, hrun, heffect⟩
      exact ⟨error, u, _, _, hrun, heffect, fun _ => ready_added _ _ _⟩

theorem ringEditById_effects {tokens : List Token} (h : Shape s a)
    (hpushed : Pushed tokens s t) (hsaves : Saves tokens a)
    (number : Int) : Effects s a (t.ringEditById number) := by
  have hshape := hpushed.shape h
  unfold State.ringEditById
  rw [ringFindById_spec hshape]
  cases hfound : firstFrom (fun i _ => number - (i + 1 : Nat) == 0)
      0 a.order with
  | some found =>
      cases found with
      | mk i id =>
          have hid := mem_of_firstFrom hfound
          change Effects s a ((t.ringSelect id).bind _)
          rw [ringSelect_eq hshape hid]
          exact Effects.succeeds (Effect.focus h hpushed hsaves _)
            (ready_select hid)
  | none =>
      have heffect := Effect.focus h hpushed hsaves t.focus
      exact Effects.fails heffect _

/-!
## Closing a buffer
-/

/-- The end of `teco_ring_close()`. -/
theorem reinsert_effects (tokens : List Token) {id : BufferId}
    (hshape : Shape t b) (htidy : Tidy t) (hlogged : Logged tokens s t)
    (hundoes : Undoes a (.reinsert id :: tokens) b)
    (howned : forall k, owned tokens k = 0)
    (hclosed : forall k, b.closed k <-> a.closed k ∨ k = id)
    (hid : ¬ a.closed id) (hready : Ready b) :
    Effects s a (do
      let s <- t.undoRingReinsert id
      some (none, s)) := by
  have hmine := (hclosed id).mpr (Or.inr rfl)
  unfold State.undoRingReinsert
  cases hundo : t.undoEnabled with
  | true =>
      rcases push_spec htidy (.reinsert id) with ⟨u, hrun, hpushed⟩
      rw [if_pos rfl, hrun]
      have hundo' : s.undoEnabled = true := by
        rw [<- hlogged.undoEnabled]
        exact hundo
      refine Effects.succeeds ⟨hpushed.shape hshape, hpushed.tidy,
        hlogged.trans hpushed.logged, fun _ => hundoes, ?_⟩ hready
      intro k
      rw [hundo', if_pos rfl, owned_append, howned, Nat.add_zero]
      by_cases hk : k = id
      · rw [hk, if_pos hmine, if_neg hid]
        simp [owned]
      · have hne : id ≠ k := fun heq => hk heq.symm
        have hiff : b.closed k <-> a.closed k := by
          rw [hclosed]
          simp [hk]
        simp only [hiff]
        simp [owned, hne]
  | false =>
      rcases hshape.free hmine.2 hmine.1 with ⟨u, hrun, hshape', rfl⟩
      rw [if_neg (by simp), hrun]
      have hundo' : s.undoEnabled = false := by
        rw [<- hlogged.undoEnabled]
        exact hundo
      refine Effects.succeeds (b := b.setBuffer id none)
        ⟨hshape', ⟨htidy.len_le, htidy.heads⟩,
          hlogged.of_eq rfl rfl rfl rfl, ?_, ?_⟩
        hready
      · intro htrue
        rw [hundo'] at htrue
        cases htrue
      · refine Owns.same howned ?_ _
        intro k
        by_cases hk : k = id
        · constructor
          · intro hclosed'
            have hsome := hclosed'.1
            rw [hk] at hsome
            simp [Contents.setBuffer] at hsome
          · intro hclosed'
            rw [hk] at hclosed'
            exact absurd hclosed' hid
        · have hiff : (b.setBuffer id none).closed k <-> b.closed k := by
            simp [Contents.closed, Contents.setBuffer, hk]
          rw [hiff, hclosed]
          simp [hk]

/-- The only buffer is closed, and an unnamed one is edited instead. -/
theorem replaced_undone {x : Contents} {id new : BufferId} {buffer : Buffer}
    (horder : a.order = [id]) (hlive : (a.buffers id).isSome)
    (hfresh : a.buffers new = none)
    (hx : SameRing x ((a.remove id).added new buffer)) :
    exists y, Contents.applyAll (.reinsert id :: addTokens new) x = some y ∧
      SameRing y a ∧ y.focus = x.focus := by
  have hne : id ≠ new := by
    intro heq
    rw [heq, hfresh] at hlive
    cases hlive
  have hnodup : a.order.Nodup := by
    rw [horder]
    exact List.nodup_singleton id
  have herase : a.order.erase id = [] := by
    rw [horder, List.erase_cons_head]
  have hxorder : x.order = [new] := by
    rw [hx.order]
    show a.order.erase id ++ [new] = [new]
    rw [herase]
    rfl
  have hfresh' : (a.remove id).buffers new = none := hfresh
  have hclosed : forall k, ((a.remove id).added new buffer).closed k <->
      a.closed k ∨ k = id := by
    intro k
    rw [closed_added hfresh', closed_remove hnodup hlive]
  have hafter : x.after id = none := by
    rw [hx.after id ((hclosed id).mpr (Or.inr rfl))]
    show Function.update a.after id _ id = none
    rw [Function.update_self, horder]
    simp [behind]
  have hbuffers : x.buffers = Function.update a.buffers new (some buffer) :=
    hx.buffers
  have hreinsert : Contents.apply (.reinsert id) x = some (x.reinsert id) := by
    refine reinsert_applied ?_ ?_ ?_
    · rw [hbuffers, Function.update_of_ne hne]
      exact hlive
    · rw [hxorder]
      simp [hne]
    · intro next hnext
      rw [hafter] at hnext
      cases hnext
  have horder' : (x.reinsert id).order = [new, id] := by
    show putBack (x.after id) id x.order = _
    rw [hafter, hxorder]
    rfl
  have hafter' : forall k, a.closed k ->
      (x.reinsert id).after k = a.after k := by
    intro k hk
    have hkid : k ≠ id := by
      intro heq
      exact hk.2 (by simp [horder, heq])
    show x.after k = a.after k
    rw [hx.after k ((hclosed k).mpr (Or.inl hk))]
    exact Function.update_of_ne hkid _ _
  have hmem : new ∈ (x.reinsert id).order := by
    rw [horder']
    exact List.mem_cons_self
  have herase' : (x.reinsert id).order.erase new = a.order := by
    rw [horder', horder, List.erase_cons_head]
  have hnew : new ∉ a.order := by
    rw [horder, List.mem_singleton]
    exact hne.symm
  rcases removeFree_undone hmem herase' hnew hfresh hbuffers hafter' with
    ⟨y, hy, hsame, hfocus⟩
  refine ⟨y, ?_, hsame, hfocus⟩
  unfold Contents.applyAll
  rw [hreinsert]
  exact hy

/-- The state in which another buffer is edited instead of a closed one. -/
def neighbourState (links : Heap BufferId) (neighbour : Option BufferId)
    (t : State) : State :=
  { t with
    links := links
    focus := { t.focus with current := neighbour } }

theorem closeNext_effects {tokens : List Token} {id k : BufferId}
    {links : Heap BufferId} (h : Shape s a) (hid : id ∈ a.order)
    (hpushed : Pushed tokens s t) (hsaves : Saves tokens a)
    (hshape : Shape { t with links := links } (a.remove id))
    (hk : (behind id a.order).or (a.order.erase id).getLast? = some k) :
    Effects s a (andThen
      (do
        let s <- (neighbourState links (some k) t).bufferEdit k
        some (none, s))
      (fun s => do
        let s <- s.undoRingReinsert id
        some (none, s))) := by
  have hnodup := h.represents.nodup
  have hlive := h.isSome_of_mem hid
  have hmem : k ∈ a.order.erase id := by
    cases hbehind : behind id a.order with
    | some next =>
        rw [hbehind] at hk
        cases hk
        exact behind_mem_erase hnodup hid hbehind
    | none =>
        rw [hbehind] at hk
        exact List.mem_of_getLast? hk
  have hmoved := hshape.setFocus { t.focus with current := some k }
  rcases Option.isSome_iff_exists.mp (hshape.isSome_of_mem hmem) with
    ⟨buffer, hbuffer⟩
  have hedit := hmoved.bufferEdit_eq hbuffer
  change (neighbourState links (some k) t).bufferEdit k = _ at hedit
  rw [hedit]
  refine reinsert_effects tokens
    (hmoved.setFocus { t.focus with
      current := some k, shown := some (.buffer k) })
    ⟨hpushed.tidy.len_le, hpushed.tidy.heads⟩
    (hpushed.logged.of_eq rfl rfl rfl rfl)
    ?_ hsaves.owned (closed_remove hnodup hlive)
    (fun hclosed => hclosed.2 hid) ?_
  · intro x hx
    have hsame : SameRing x (a.remove id) :=
      ⟨hx.ring.order, hx.ring.buffers, hx.ring.after⟩
    rcases reinsert_undone hnodup hid hlive hsame with ⟨y, hy, hback, _⟩
    rcases hsaves.restores y hback.buffers with ⟨focus, hz, hfocus⟩
    refine ⟨{ y with focus := focus }, ?_, hback.setFocus focus, hfocus⟩
    unfold Contents.applyAll
    rw [hy]
    exact hz
  · intro _
    exact ⟨k, hmem, rfl, rfl⟩

theorem closeLast_effects {tokens : List Token} {id : BufferId}
    {links : Heap BufferId} (h : Shape s a) (hid : id ∈ a.order)
    (hpushed : Pushed tokens s t) (hsaves : Saves tokens a)
    (hshape : Shape { t with links := links } (a.remove id))
    (hnone : (behind id a.order).or (a.order.erase id).getLast? = none) :
    Effects s a (andThen ((neighbourState links none t).ringEditByName none)
      (fun s => do
        let s <- s.undoRingReinsert id
        some (none, s))) := by
  have hnodup := h.represents.nodup
  have hlive := h.isSome_of_mem hid
  have hempty : a.order.erase id = [] := by
    rw [<- List.getLast?_eq_none_iff]
    exact (Option.or_eq_none_iff.mp hnone).2
  have horder : a.order = [id] := eq_singleton_of_erase hnodup hid hempty
  have hmoved : Shape (neighbourState links none t)
      { a.remove id with focus := { t.focus with current := none } } :=
    hshape.setFocus { t.focus with current := none }
  have htidy : Tidy (neighbourState links none t) :=
    ⟨hpushed.tidy.len_le, hpushed.tidy.heads⟩
  have hnew : (neighbourState links none t).nextBuffer = s.nextBuffer :=
    hpushed.nextBuffer
  have hnothing : (neighbourState links none t).ringEditByName none =
      (neighbourState links none t).ringAdd none := by
    unfold State.ringEditByName
    rw [ringFindByName_spec hmoved]
    have hnil : ({ a.remove id with
        focus := { t.focus with current := none } } : Contents).order = [] :=
      hempty
    rw [hnil]
    rfl
  rcases ringAdd_spec hmoved htidy none with
    ⟨error, u, buffer, hrun, hadded, htidy', hlogged, herror⟩
  have herror' := herror rfl
  subst herror'
  rw [hnew] at hadded hlogged
  have hall : Logged (addTokens s.nextBuffer ++ tokens) s u := by
    have hstart : Logged tokens s (neighbourState links none t) :=
      hpushed.logged.of_eq rfl rfl rfl rfl
    exact hstart.trans hlogged
  have hfresh := h.fresh
  have hfresh' : (a.remove id).buffers s.nextBuffer = none := hfresh
  rw [hnothing, hrun]
  refine reinsert_effects (addTokens s.nextBuffer ++ tokens)
    hadded htidy' hall ?_ ?_ ?_ (fun hclosed => hclosed.2 hid)
    (ready_added _ _ _)
  · intro x hx
    have hsame : SameRing x ((a.remove id).added s.nextBuffer buffer) :=
      ⟨hx.ring.order, hx.ring.buffers, hx.ring.after⟩
    rcases replaced_undone horder hlive hfresh hsame with ⟨y, hy, hback, _⟩
    rcases hsaves.restores y hback.buffers with ⟨focus, hz, hfocus⟩
    refine ⟨{ y with focus := focus }, ?_, hback.setFocus focus, hfocus⟩
    rw [<- List.cons_append, applyAll_append, hy]
    exact hz
  · intro k
    rw [owned_append, owned_addTokens, hsaves.owned]
  · intro k
    have hiff := @closed_added _ _ buffer hfresh' k
    rw [closed_remove hnodup hlive] at hiff
    exact hiff

theorem ringClose_effects (h : Shape s a) (ht : Tidy s) (hready : Ready a)
    {id : BufferId} (hid : id ∈ a.order) :
    Effects s a (s.ringClose id) := by
  have hnodup := h.represents.nodup
  have hlive := h.isSome_of_mem hid
  have hnot : ¬ a.closed id := fun hclosed => hclosed.2 hid
  rcases Option.isSome_iff_exists.mp hlive with ⟨buffer, hbuffer⟩
  unfold State.ringClose
  rw [h.focus]
  split
  case isFalse =>
      rcases h.remove hid with ⟨links, hlinks, hshape⟩
      rw [h.ringRemoveBuffer_eq hbuffer hlinks]
      refine reinsert_effects [] hshape
        ⟨ht.len_le, ht.heads⟩ ((Logged.refl s).of_eq rfl rfl rfl rfl) ?_
        (fun _ => rfl) (closed_remove hnodup hlive) hnot ?_
      · intro x hx
        rcases reinsert_undone hnodup hid hlive hx.ring with
          ⟨y, hy, hsame, hfocus⟩
        refine ⟨y, ?_, hsame, ?_⟩
        · unfold Contents.applyAll
          rw [hy]
          rfl
        · rw [hfocus]
          exact hx.focus
      · intro hnone
        rename_i hcurrent
        rcases hready hnone with ⟨k, hk, hkcurrent, hshown⟩
        have hne : k ≠ id := fun heq => hcurrent (by rw [hkcurrent, heq])
        exact ⟨k, hnodup.mem_erase_iff.mpr ⟨hne, hk⟩, hkcurrent, hshown⟩
  case isTrue hcurrent =>
      rcases ringUndoEdit_spec h ht hcurrent hlive with ⟨t, hrun, hpushed⟩
      have hsaves := saves_ringTokens hready hcurrent hlive
      have hshape := hpushed.shape h
      rcases hshape.remove hid with ⟨links, hlinks, hremoved⟩
      rw [hrun]
      change Effects s a ((t.ringRemoveBuffer id).bind _)
      rw [hshape.ringRemoveBuffer_eq hbuffer hlinks]
      change Effects s a
        ((State.ringNeighbour id { t with links := links }).bind _)
      rw [hshape.neighbour hid hlinks]
      cases hneighbour : (behind id a.order).or
          (a.order.erase id).getLast? with
      | none =>
          exact closeLast_effects (t := t) h hid hpushed hsaves hremoved
            hneighbour
      | some k =>
          exact closeNext_effects (t := t) h hid hpushed hsaves hremoved
            hneighbour

/-!
## Changes to a buffer
-/

theorem SameRing.setBuffer {x : Contents} {id : BufferId}
    {buffer old : Buffer} (hid : a.buffers id = some old)
    (hx : SameRing x (a.setBuffer id (some buffer))) :
    SameRing (x.setBuffer id (some old)) a := by
  have hbuffers : x.buffers = Function.update a.buffers id (some buffer) :=
    hx.buffers
  refine ⟨hx.order, ?_, ?_⟩
  · show Function.update x.buffers id (some old) = a.buffers
    rw [hbuffers, Function.update_idem, <- hid, Function.update_eq_self]
  · intro k hk
    refine hx.after k ⟨?_, hk.2⟩
    show (Function.update a.buffers id (some buffer) k).isSome
    by_cases heq : k = id
    · simp [heq]
    · rw [Function.update_of_ne heq]
      exact hk.1

theorem closed_setBuffer {id : BufferId} {buffer : Buffer}
    (hid : (a.buffers id).isSome) (k : BufferId) :
    (a.setBuffer id (some buffer)).closed k <-> a.closed k := by
  unfold Contents.closed
  show (Function.update a.buffers id (some buffer) k).isSome ∧ k ∉ a.order <->
    _
  by_cases heq : k = id
  · simp [heq, hid]
  · rw [Function.update_of_ne heq]

theorem ringDirtify_effects (h : Shape s a) (ht : Tidy s)
    (hready : Ready a) :
    Effects s a (do
      let s <- s.ringDirtify
      some (none, s)) := by
  unfold State.ringDirtify
  rw [h.focus]
  cases hqreg : a.focus.qregCurrent with
  | some qreg => exact Effects.succeeds (Effect.refl h ht) hready
  | none =>
      rcases hready hqreg with ⟨id, hid, hcurrent, _⟩
      have hlive := h.isSome_of_mem hid
      rcases Option.isSome_iff_exists.mp hlive with ⟨buffer, hbuffer⟩
      have hread : s.buffers id = some buffer := by
        rw [h.buffers]
        exact hbuffer
      dsimp only
      rw [hcurrent]
      simp only [Option.bind_eq_bind, Option.bind_some, hread]
      split
      · exact Effects.succeeds (Effect.refl h ht) hready
      · rcases push_spec ht (.infoUpdate id) with ⟨s₁, hrun₁, hpushed₁⟩
        rcases push_spec hpushed₁.tidy (.dirty id buffer.dirty) with
          ⟨s₂, hrun₂, hpushed₂⟩
        have hpushed := hpushed₁.trans hpushed₂
        have hset := (hpushed.shape h).bufferSetDirty_eq hbuffer true
        simp only [hrun₁, hrun₂, Option.bind_some, hset]
        refine Effects.succeeds
          (b := a.setBuffer id (some { buffer with dirty := true }))
          ⟨(hpushed.shape h).setBuffer hlive _,
            ⟨hpushed.tidy.len_le, hpushed.tidy.heads⟩,
            hpushed.logged.of_eq rfl rfl rfl rfl, ?_,
            Owns.same (fun k => by simp [owned]) (closed_setBuffer hlive) _⟩
          hready
        intro _ x hx
        have hx' : x.buffers id = some { buffer with dirty := true } := by
          rw [hx.ring.buffers]
          exact Function.update_self _ _ _
        refine ⟨_, ?_, hx.ring.setBuffer hbuffer, hx.focus⟩
        simp [Contents.applyAll, Contents.apply, hx', Contents.setBuffer]

theorem bufferSave_effects (h : Shape s a) (ht : Tidy s) (hready : Ready a)
    {id : BufferId} (hid : id ∈ a.order) (saving : Saving) :
    EffectsTo (fun b => Ready b ∧ b.order = a.order) s a
      (s.bufferSave id saving) := by
  have hlive := h.isSome_of_mem hid
  rcases Option.isSome_iff_exists.mp hlive with ⟨buffer, hbuffer⟩
  have hread : s.buffers id = some buffer := by
    rw [h.buffers]
    exact hbuffer
  unfold State.bufferSave
  simp only [Option.bind_eq_bind, hread, Option.bind_some]
  split
  · exact Effects.fails (Effect.refl h ht) _
  · cases hfailure : saving.failure with
    | some error => exact Effects.fails (Effect.refl h ht) _
    | none =>
        obtain ⟨s₁, first, hrun₁, hpushed₁, hfirst⟩ : exists s₁ first,
            (if s.focus.current = some id ∧ s.focus.qregCurrent = none then
              s.push (.infoUpdate id)
            else some s) = some s₁ ∧ Pushed first s s₁ ∧
              (first = [.infoUpdate id] ∨ first = []) := by
          split
          · rcases push_spec ht (.infoUpdate id) with ⟨s₁, hrun, hpushed⟩
            exact ⟨s₁, _, hrun, hpushed, Or.inl rfl⟩
          · exact ⟨s, [], rfl, Pushed.refl ht, Or.inr rfl⟩
        rcases push_spec hpushed₁.tidy (.dirty id buffer.dirty) with
          ⟨s₂, hrun₂, hpushed₂⟩
        have hpushed := hpushed₁.trans hpushed₂
        have hshape := hpushed.shape h
        have hset := hshape.bufferSetDirty_eq hbuffer false
        have hshape' := hshape.setBuffer hlive { buffer with dirty := false }
        have htidy' : Tidy
            (s₂.setBuffer id { buffer with dirty := false }) :=
          ⟨hpushed.tidy.len_le, hpushed.tidy.heads⟩
        rcases push_spec htidy' (.filename id buffer.filename) with
          ⟨s₃, hrun₃, hpushed₃⟩
        have hlogged₃ : Logged _ s s₃ :=
          Logged.trans (t := s₂.setBuffer id { buffer with dirty := false })
            (hpushed.logged.of_eq rfl rfl rfl rfl) hpushed₃.logged
        have hclean : (a.setBuffer id
            (some { buffer with dirty := false })).buffers id =
              some { buffer with dirty := false } :=
          Function.update_self _ _ _
        have hname := (hpushed₃.shape hshape').bufferSetFilename_eq hclean
          (some saving.resolved)
        have hsome : ((a.setBuffer id
            (some { buffer with dirty := false })).buffers id).isSome := by
          rw [hclean]
          rfl
        have hshape₄ := (hpushed₃.shape hshape').setBuffer hsome
          { filename := some saving.resolved, dirty := false }
        have hsame : (a.setBuffer id
            (some { buffer with dirty := false })).setBuffer id
              (some { filename := some saving.resolved, dirty := false }) =
            a.setBuffer id
              (some { filename := some saving.resolved, dirty := false }) := by
          simp [Contents.setBuffer]
        rw [hsame] at hshape₄
        simp only [hrun₁, hrun₂, hset, hrun₃, hname, Option.bind_some]
        refine Effects.succeeds ⟨hshape₄,
          ⟨hpushed₃.tidy.len_le, hpushed₃.tidy.heads⟩,
          hlogged₃.of_eq rfl rfl rfl rfl, ?_,
          Owns.same ?_ (closed_setBuffer hlive) _⟩ ⟨hready, rfl⟩
        · intro _ x hx
          have hx' : x.buffers id =
              some { filename := some saving.resolved, dirty := false } := by
            rw [hx.ring.buffers]
            exact Function.update_self _ _ _
          refine ⟨_, ?_, hx.ring.setBuffer hbuffer, hx.focus⟩
          rcases hfirst with rfl | rfl <;>
            simp [Contents.applyAll, Contents.apply, hx', Contents.setBuffer]
        · intro k
          rcases hfirst with rfl | rfl <;> simp [owned]

/-!
## Commands
-/

theorem ringFind_effects (h : Shape s a) (ht : Tidy s) (number : Int)
    {f : BufferId -> State -> Result}
    (hf : forall id, id ∈ a.order -> Effects s a (f id s)) :
    Effects s a (s.ringFind number f) := by
  unfold State.ringFind
  rw [ringFindById_spec h]
  cases hfound : firstFrom (fun i _ => number - (i + 1 : Nat) == 0)
      0 a.order with
  | none => exact Effects.fails (Effect.refl h ht) _
  | some found =>
      cases found with
      | mk i id => exact hf id (mem_of_firstFrom hfound)

theorem editFile_effects (h : Shape s a) (ht : Tidy s) (hready : Ready a)
    (file : Option File) : Effects s a (s.editFile file) := by
  rcases currentDocUndoEdit_spec h ht hready with
    ⟨t, tokens, hrun, hpushed, hsaves⟩
  unfold State.editFile
  rw [hrun]
  exact ringEditByName_effects h hpushed hsaves file

theorem editId_effects (h : Shape s a) (ht : Tidy s) (hready : Ready a)
    (number : Int) : Effects s a (s.editId number) := by
  rcases currentDocUndoEdit_spec h ht hready with
    ⟨t, tokens, hrun, hpushed, hsaves⟩
  unfold State.editId
  rw [hrun]
  exact ringEditById_effects h hpushed hsaves number

theorem closeBuffer_effects (h : Shape s a) (ht : Tidy s) (hready : Ready a)
    (force colon : Bool) (saving : Saving) {id : BufferId}
    (hid : id ∈ a.order) :
    Effects s a (s.closeBuffer force colon saving id) := by
  unfold State.closeBuffer
  split
  · refine (bufferSave_effects h ht hready hid _).andThen ?_
    intro t b hshape htidy hsaved
    refine ringClose_effects hshape htidy hsaved.1 ?_
    rw [hsaved.2]
    exact hid
  · rcases Option.isSome_iff_exists.mp (h.isSome_of_mem hid) with
      ⟨buffer, hbuffer⟩
    rw [h.buffers, hbuffer]
    change Effects s a (if _ then _ else _)
    split
    · exact Effects.fails (Effect.refl h ht) _
    · exact ringClose_effects h ht hready hid

theorem editFileInitial_effects (h : Shape s a) (ht : Tidy s)
    (hready : Ready a) (number : Int) :
    Effects s a (s.editFileInitial number) := by
  have hflag : forall flag, Shape { s with allowFilename := flag } a :=
    fun flag => h.of_eq rfl rfl rfl rfl
  have htidy : forall flag, Tidy { s with allowFilename := flag } :=
    fun flag => ⟨ht.len_le, ht.heads⟩
  unfold State.editFileInitial
  split
  · rcases editId_effects (hflag false) (htidy false) hready number with
      ⟨error, t, b, tokens, hrun, heffect, hpost⟩
    have hlogged : Logged tokens s t :=
      ⟨heffect.logged.undoEnabled, heffect.logged.pc,
        heffect.logged.heads, heffect.logged.len⟩
    exact ⟨error, t, b, tokens, hrun,
      ⟨heffect.shape, heffect.tidy, hlogged, heffect.undoes, heffect.owns⟩,
      hpost⟩
  · have hlogged : Logged [] s { s with allowFilename := true } :=
      (Logged.refl s).of_eq rfl rfl rfl rfl
    exact Effects.succeeds
      ⟨hflag true, htidy true, hlogged, fun _ => Undoes.refl a,
        (Effect.refl h ht).owns⟩ hready

theorem editFileDone_effects (h : Shape s a) (ht : Tidy s) (hready : Ready a)
    (empty : Bool) (file : Option File) :
    Effects s a (s.editFileDone empty file) := by
  unfold State.editFileDone
  split
  · exact editFile_effects h ht hready file
  · split
    · exact Effects.succeeds (Effect.refl h ht) hready
    · exact Effects.fails (Effect.refl h ht) _

theorem ecommandClose_effects (h : Shape s a) (ht : Tidy s) (hready : Ready a)
    (number : Option Int) (minus colon : Bool) (saving : Saving) :
    Effects s a (s.ecommandClose number minus colon saving) := by
  unfold State.ecommandClose
  cases number with
  | some number =>
      exact ringFind_effects h ht _ (fun id hid =>
        closeBuffer_effects h ht hready _ colon saving hid)
  | none =>
      dsimp only
      rw [h.focus]
      cases hqreg : a.focus.qregCurrent with
      | some qreg => exact Effects.fails (Effect.refl h ht) _
      | none =>
          rcases hready hqreg with ⟨id, hid, hcurrent, _⟩
          dsimp only
          rw [hcurrent]
          exact closeBuffer_effects h ht hready minus colon saving hid

theorem saveFileDone_effects (h : Shape s a) (ht : Tidy s) (hready : Ready a)
    (number : Option Int) (saving : Saving) (register : Option TecoError) :
    Effects s a (s.saveFileDone number saving register) := by
  unfold State.saveFileDone
  cases number with
  | some number =>
      exact ringFind_effects h ht number (fun id hid =>
        (bufferSave_effects h ht hready hid saving).mono
          (fun b hb => hb.1))
  | none =>
      dsimp only
      rw [h.focus]
      cases hqreg : a.focus.qregCurrent with
      | some qreg =>
          cases register with
          | some error => exact Effects.fails (Effect.refl h ht) error
          | none => exact Effects.succeeds (Effect.refl h ht) hready
      | none =>
          rcases hready hqreg with ⟨id, hid, hcurrent, _⟩
          dsimp only
          rw [hcurrent]
          exact (bufferSave_effects h ht hready hid saving).mono
            (fun b hb => hb.1)

theorem editQReg_effects (h : Shape s a) (ht : Tidy s) (hready : Ready a)
    (qreg : Register) (failure : Option TecoError) :
    Effects s a (s.editQReg qreg failure) := by
  rcases currentDocUndoEdit_spec h ht hready with
    ⟨t, tokens, hrun, hpushed, hsaves⟩
  unfold State.editQReg
  rw [hrun]
  cases failure with
  | some error =>
      exact Effects.fails (Effect.focus h hpushed hsaves t.focus) error
  | none =>
      refine Effects.succeeds (Effect.focus h hpushed hsaves
        { t.focus with qregCurrent := some qreg, shown := some .qregs }) ?_
      intro hnone
      cases hnone

theorem exec_effects (h : Shape s a) (ht : Tidy s) (hready : Ready a)
    (command : Command) : Effects s a (exec command s) := by
  cases command with
  | editFileInitial number =>
      exact editFileInitial_effects h ht hready number
  | editFileDone empty file => exact editFileDone_effects h ht hready empty file
  | editFile file => exact editFile_effects h ht hready file
  | editId number => exact editId_effects h ht hready number
  | close number minus colon saving =>
      exact ecommandClose_effects h ht hready number minus colon saving
  | save number saving register =>
      exact saveFileDone_effects h ht hready number saving register
  | dirtify => exact ringDirtify_effects h ht hready
  | editQReg qreg failure => exact editQReg_effects h ht hready qreg failure
  | fail error => exact Effects.fails (Effect.refl h ht) error

theorem execAll_effects (h : Shape s a) (ht : Tidy s) (hready : Ready a)
    (commands : List Command) : Effects s a (execAll commands s) := by
  induction commands generalizing s a with
  | nil => exact Effects.succeeds (Effect.refl h ht) hready
  | cons command commands ih =>
      refine (exec_effects h ht hready command).andThen ?_
      intro t b hshape htidy hready'
      exact ih hshape htidy hready'

end BufferRing
end SciTECO
