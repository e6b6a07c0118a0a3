import Mathlib.Data.List.Perm.Subperm
import SciTECO.BufferRing.Buffers

/-!
# The contents of the ring

What the links stand for: the list of the buffers, and for a closed buffer the
one that it has been in front of.  Undo tokens have a meaning for the contents,
which is defined as long as they use no buffer that has been freed.
-/

namespace SciTECO
namespace BufferRing

open TailQueue

structure Contents where
  order : List BufferId
  buffers : BufferId -> Option Buffer
  /-- The buffer behind a closed one. -/
  after : BufferId -> Option BufferId
  focus : Focus

/-- The element behind another one. -/
def behind (id : BufferId) : List BufferId -> Option BufferId
  | [] => none
  | first :: rest => if first = id then rest.head? else behind id rest

/-- Put `id` in front of another element. -/
def putBefore (next id : BufferId) : List BufferId -> List BufferId
  | [] => []
  | first :: rest =>
      if first = next then id :: first :: rest
      else first :: putBefore next id rest

/-- Put `id` in front of another element or at the end. -/
def putBack (next : Option BufferId) (id : BufferId)
    (order : List BufferId) : List BufferId :=
  match next with
  | none => order ++ [id]
  | some next => putBefore next id order

namespace Contents

def setBuffer (id : BufferId) (buffer : Option Buffer) (a : Contents) :
    Contents :=
  { a with buffers := Function.update a.buffers id buffer }

def add (id : BufferId) (a : Contents) : Contents :=
  { a with
    order := a.order ++ [id]
    buffers := Function.update a.buffers id
      (some { filename := none, dirty := false }) }

def remove (id : BufferId) (a : Contents) : Contents :=
  { a with
    order := a.order.erase id
    after := Function.update a.after id (behind id a.order) }

def reinsert (id : BufferId) (a : Contents) : Contents :=
  { a with order := putBack (a.after id) id a.order }

/-- What a token does, if its buffer may be used in that way. -/
def apply (token : Token) (a : Contents) : Option Contents :=
  match token with
  | .qregCurrent value =>
      some { a with focus := { a.focus with qregCurrent := value } }
  | .ringCurrent value =>
      some { a with focus := { a.focus with current := value } }
  | .showView .qregs =>
      some { a with focus := { a.focus with shown := some .qregs } }
  | .showView (.buffer id) => do
      let _ <- a.buffers id
      some { a with focus := { a.focus with shown := some (.buffer id) } }
  | .infoUpdate id => do
      let _ <- a.buffers id
      some a
  | .bufferFree id => do
      let _ <- a.buffers id
      if id ∈ a.order then none else some (a.setBuffer id none)
  | .removeBuffer id => if id ∈ a.order then some (a.remove id) else none
  | .reinsert id => do
      let _ <- a.buffers id
      if id ∈ a.order then none
      else if forall next, a.after id = some next -> next ∈ a.order then
        some (a.reinsert id)
      else none
  | .dirty id value => do
      let buffer <- a.buffers id
      some (a.setBuffer id (some { buffer with dirty := value }))
  | .filename id value => do
      let buffer <- a.buffers id
      some (a.setBuffer id (some { buffer with filename := value }))

def applyAll : List Token -> Contents -> Option Contents
  | [], a => some a
  | token :: tokens, a => do
      let a <- apply token a
      applyAll tokens a

end Contents

/-- The links and the buffers of a state are what the contents say. -/
structure Shape (s : State) (a : Contents) : Prop where
  represents : Represents s.links a.order
  live : forall id, (s.links (.entry id)).isSome = (a.buffers id).isSome
  buffers : s.buffers = a.buffers
  after : forall id, id ∉ a.order -> (a.buffers id).isSome ->
    nextOf (.entry id) s.links = some (a.after id)
  focus : s.focus = a.focus
  bound : forall id, (a.buffers id).isSome -> id < s.nextBuffer

/-!
## Lists
-/

theorem behind_middle {l r : List BufferId} {id : BufferId}
    (h : id ∉ l) : behind id (l ++ id :: r) = r.head? := by
  induction l with
  | nil => simp [behind]
  | cons first l ih =>
      have hne : first ≠ id := fun heq => h (by simp [heq])
      have htail : id ∉ l := fun hmem => h (List.mem_cons_of_mem _ hmem)
      rw [List.cons_append, behind, if_neg hne, ih htail]

theorem putBefore_middle {l r : List BufferId} {next id : BufferId}
    (h : next ∉ l) :
    putBefore next id (l ++ next :: r) = l ++ id :: next :: r := by
  induction l with
  | nil => simp [putBefore]
  | cons first l ih =>
      have hne : first ≠ next := fun heq => h (by simp [heq])
      have htail : next ∉ l := fun hmem => h (List.mem_cons_of_mem _ hmem)
      rw [List.cons_append, putBefore, if_neg hne, ih htail]
      rfl

theorem erase_middle {l r : List BufferId} {id : BufferId} (h : id ∉ l) :
    (l ++ id :: r).erase id = l ++ r := by
  rw [List.erase_append_right _ h, List.erase_cons_head]

theorem eq_singleton_of_erase {order : List BufferId} {id : BufferId}
    (hnodup : order.Nodup) (hid : id ∈ order) (h : order.erase id = []) :
    order = [id] := by
  rcases List.append_of_mem hid with ⟨l, r, hsplit⟩
  have hidl : id ∉ l := by
    intro hmem
    rw [hsplit] at hnodup
    exact (List.nodup_append.mp hnodup).2.2 id hmem id List.mem_cons_self rfl
  rw [hsplit, erase_middle hidl, List.append_eq_nil_iff] at h
  rw [hsplit, h.1, h.2]
  rfl

/-- An element that has been taken out is put back where it was. -/
theorem putBack_erase {order : List BufferId} {id : BufferId}
    (h : order.Nodup) (hid : id ∈ order) :
    putBack (behind id order) id (order.erase id) = order := by
  rcases List.append_of_mem hid with ⟨l, r, rfl⟩
  have hparts := List.nodup_append.mp h
  have hidl : id ∉ l := fun hmem =>
    hparts.2.2 id hmem id List.mem_cons_self rfl
  rw [behind_middle hidl, erase_middle hidl]
  cases r with
  | nil => simp [putBack]
  | cons next r =>
      refine putBefore_middle ?_
      intro hmem
      exact hparts.2.2 next hmem next (by simp) rfl

theorem behind_mem_erase {order : List BufferId} {id next : BufferId}
    (h : order.Nodup) (hid : id ∈ order)
    (hnext : behind id order = some next) : next ∈ order.erase id := by
  rcases List.append_of_mem hid with ⟨l, r, rfl⟩
  have hparts := List.nodup_append.mp h
  have hidl : id ∉ l := fun hmem =>
    hparts.2.2 id hmem id List.mem_cons_self rfl
  rw [behind_middle hidl] at hnext
  rw [erase_middle hidl]
  exact List.mem_append_right _ (List.mem_of_mem_head? hnext)

/-!
## Operations
-/

namespace Shape

variable {s : State} {a : Contents} {id : BufferId}

theorem isSome_of_mem (h : Shape s a) (hid : id ∈ a.order) :
    (a.buffers id).isSome := by
  rw [<- h.live]
  exact h.represents.isSome_entry hid

theorem not_mem_of_none (h : Shape s a) (hid : a.buffers id = none) :
    id ∉ a.order := by
  intro hmem
  have hsome := h.isSome_of_mem hmem
  rw [hid] at hsome
  cases hsome

theorem fresh (h : Shape s a) : a.buffers s.nextBuffer = none := by
  cases hbuffer : a.buffers s.nextBuffer with
  | none => rfl
  | some buffer =>
      have hlt := h.bound s.nextBuffer (by rw [hbuffer]; rfl)
      exact absurd hlt (Nat.lt_irrefl _)

/-- The loops over the ring end. -/
theorem length_le (h : Shape s a) : a.order.length ≤ s.nextBuffer := by
  have hsubset : a.order ⊆ List.range s.nextBuffer := by
    intro id hid
    rw [List.mem_range]
    exact h.bound id (h.isSome_of_mem hid)
  have hle := (List.subperm_of_subset h.represents.nodup hsubset).length_le
  rw [List.length_range] at hle
  exact hle

theorem setFocus (h : Shape s a) (focus : Focus) :
    Shape { s with focus := focus } { a with focus := focus } :=
  ⟨h.represents, h.live, h.buffers, h.after, rfl, h.bound⟩

/-- What the undo tokens and `allow_filename` are does not matter. -/
theorem of_eq (h : Shape s a) {t : State} (hlinks : t.links = s.links)
    (hbuffers : t.buffers = s.buffers) (hfocus : t.focus = s.focus)
    (hnext : t.nextBuffer = s.nextBuffer) : Shape t a := by
  constructor
  · rw [hlinks]
    exact h.represents
  · rw [hlinks]
    exact h.live
  · rw [hbuffers]
    exact h.buffers
  · rw [hlinks]
    exact h.after
  · rw [hfocus]
    exact h.focus
  · rw [hnext]
    exact h.bound

theorem setBuffer (h : Shape s a) (hid : (a.buffers id).isSome)
    (buffer : Buffer) :
    Shape (s.setBuffer id buffer) (a.setBuffer id (some buffer)) := by
  have hsome : forall k,
      (Function.update a.buffers id (some buffer) k).isSome =
        (a.buffers k).isSome := by
    intro k
    by_cases hk : k = id
    · simp [hk, hid]
    · rw [Function.update_of_ne hk]
  constructor
  · exact h.represents
  · intro k
    exact (h.live k).trans (hsome k).symm
  · show Function.update s.buffers id (some buffer) = _
    rw [h.buffers]
    rfl
  · intro k hk hlive
    exact h.after k hk ((hsome k).symm.trans hlive)
  · exact h.focus
  · intro k hlive
    exact h.bound k ((hsome k).symm.trans hlive)

theorem add (h : Shape s a) :
    exists links, insertTail s.nextBuffer s.bufferNew.links = some links ∧
      Shape { s.bufferNew with links := links } (a.add s.nextBuffer) := by
  have hfresh := h.fresh
  have hnot := h.not_mem_of_none hfresh
  have hsome : (s.bufferNew.links (.entry s.nextBuffer)).isSome := by
    simp [State.bufferNew, alloc]
  rcases insertTail_spec (h.represents.alloc hnot) hnot hsome with
    ⟨links, hrun, hrep, htouches⟩
  refine ⟨links, hrun, hrep, ?_, ?_, ?_, h.focus, ?_⟩
  · intro id
    show (links (.entry id)).isSome = _
    rw [htouches.isSome]
    by_cases hid : id = s.nextBuffer
    · simp [hid, alloc, Contents.add]
    · simp [alloc, Contents.add, hid, h.live]
  · show Function.update s.buffers _ _ = _
    rw [h.buffers]
    rfl
  · intro id hid hlive
    have hne : id ≠ s.nextBuffer := by
      intro heq
      exact hid (by simp [Contents.add, heq])
    have hnotOrder : id ∉ a.order := fun hmem =>
      hid (List.mem_append_left _ hmem)
    have hlive' : (a.buffers id).isSome := by
      simpa [Contents.add, hne] using hlive
    have hcell : links (.entry id) = s.links (.entry id) := by
      rw [htouches.other id (by simp [hne, hnotOrder])]
      simp [alloc, hne]
    show nextOf (.entry id) links = _
    rw [nextOf_congr hcell]
    exact h.after id hnotOrder hlive'
  · intro id hlive
    by_cases hid : id = s.nextBuffer
    · rw [hid]
      exact Nat.lt_succ_self _
    · have hlive' : (a.buffers id).isSome := by
        simpa [Contents.add, hid] using hlive
      exact Nat.lt_succ_of_lt (h.bound id hlive')

theorem remove (h : Shape s a) (hid : id ∈ a.order) :
    exists links, TailQueue.remove id s.links = some links ∧
      Shape { s with links := links } (a.remove id) := by
  rcases List.append_of_mem hid with ⟨l, r, horder⟩
  have hnodup := h.represents.nodup
  rw [horder] at hnodup
  have hidl : id ∉ l := fun hmem =>
    (List.nodup_append.mp hnodup).2.2 id hmem id List.mem_cons_self rfl
  have hperm : (l ++ id :: r).Perm (id :: (l ++ r)) := List.perm_middle
  have hout : id ∉ l ++ r :=
    (List.nodup_cons.mp (hperm.nodup_iff.mp hnodup)).1
  have hrep : Represents s.links (l ++ id :: r) := by
    rw [<- horder]
    exact h.represents
  have herase : a.order.erase id = l ++ r := by
    rw [horder, erase_middle hidl]
  rcases remove_spec hrep with ⟨links, hrun, hrep', htouches⟩
  refine ⟨links, hrun, ?_, ?_, h.buffers, ?_, h.focus, h.bound⟩
  · show Represents links (a.order.erase id)
    rw [herase]
    exact hrep'
  · intro k
    show (links (.entry k)).isSome = _
    rw [htouches.isSome]
    exact h.live k
  · intro k hk hlive
    have hk' : k ∉ l ++ r := by
      rw [<- herase]
      exact hk
    show nextOf (.entry k) links = some (Function.update a.after id _ k)
    rw [nextOf_congr (htouches.other k hk')]
    by_cases hkid : k = id
    · rw [hkid, Function.update_self, horder, behind_middle hidl]
      exact hrep.nextOf_entry
    · rw [Function.update_of_ne hkid]
      refine h.after k ?_ hlive
      rw [horder]
      intro hmem
      rcases List.mem_cons.mp (hperm.mem_iff.mp hmem) with heq | hrest
      · exact hkid heq
      · exact hk' hrest

theorem free (h : Shape s a) (hid : id ∉ a.order)
    (hlive : (a.buffers id).isSome) :
    exists t, s.bufferFree id = some t ∧ Shape t (a.setBuffer id none) ∧
      t = { s with
        links := TailQueue.free id s.links
        buffers := Function.update s.buffers id none } := by
  rcases Option.isSome_iff_exists.mp hlive with ⟨buffer, hbuffer⟩
  have hrun : s.bufferFree id = some { s with
      links := TailQueue.free id s.links
      buffers := Function.update s.buffers id none } := by
    unfold State.bufferFree
    rw [h.buffers, hbuffer]
    rfl
  refine ⟨_, hrun, ⟨?_, ?_, ?_, ?_, h.focus, ?_⟩, rfl⟩
  · exact h.represents.free hid
  · intro k
    by_cases hk : k = id
    · simp [hk, TailQueue.free, Contents.setBuffer]
    · simp [TailQueue.free, Contents.setBuffer, hk, h.live]
  · show Function.update s.buffers id none = _
    rw [h.buffers]
    rfl
  · intro k hk hklive
    have hne : k ≠ id := by
      intro heq
      simp [Contents.setBuffer, heq] at hklive
    have hklive' : (a.buffers k).isSome := by
      simpa [Contents.setBuffer, hne] using hklive
    show nextOf (.entry k) (TailQueue.free id s.links) = _
    have hcell : TailQueue.free id s.links (.entry k) = s.links (.entry k) := by
      simp [TailQueue.free, hne]
    rw [nextOf_congr hcell]
    exact h.after k hk hklive'
  · intro k hklive
    have hne : k ≠ id := by
      intro heq
      simp [Contents.setBuffer, heq] at hklive
    exact h.bound k (by simpa [Contents.setBuffer, hne] using hklive)

theorem reinsert (h : Shape s a) (hid : id ∉ a.order)
    (hlive : (a.buffers id).isSome)
    (hnext : forall next, a.after id = some next -> next ∈ a.order) :
    exists t, s.ringReinsert id = some t ∧ Shape t (a.reinsert id) ∧
      exists links, t = { s with links := links } := by
  have hafter := h.after id hid hlive
  have hcell : (s.links (.entry id)).isSome := by
    rw [h.live]
    exact hlive
  have hdone : forall links l, putBack (a.after id) id a.order = l ->
      Represents links l -> l.Perm (id :: a.order) ->
      Touches s.links links (id :: a.order) ->
      Shape { s with links := links } (a.reinsert id) := by
    intro links l hl hrep hperm htouches
    refine ⟨?_, ?_, h.buffers, ?_, h.focus, h.bound⟩
    · show Represents links (putBack (a.after id) id a.order)
      rw [hl]
      exact hrep
    · intro k
      show (links (.entry k)).isSome = _
      rw [htouches.isSome]
      exact h.live k
    · intro k hk hklive
      have hk' : k ∉ id :: a.order := by
        intro hmem
        refine hk ?_
        show k ∈ putBack (a.after id) id a.order
        rw [hl]
        exact hperm.mem_iff.mpr hmem
      show nextOf (.entry k) links = _
      rw [nextOf_congr (htouches.other k hk')]
      exact h.after k (fun hmem => hk' (List.mem_cons_of_mem _ hmem)) hklive
  unfold State.ringReinsert
  rw [hafter]
  cases hnode : a.after id with
  | none =>
      rcases insertTail_spec h.represents hid hcell with
        ⟨links, hrun, hrep, htouches⟩
      refine ⟨{ s with links := links }, ?_,
        hdone links _ (by rw [hnode]; rfl) hrep ?_ htouches, links, rfl⟩
      · change (insertTail id s.links).bind _ = _
        rw [hrun]
        rfl
      · exact List.perm_append_comm
  | some next =>
      rcases List.append_of_mem (hnext next hnode) with ⟨l, r, horder⟩
      have hnodup := h.represents.nodup
      rw [horder] at hnodup
      have hnl : next ∉ l := fun hmem =>
        (List.nodup_append.mp hnodup).2.2 next hmem next
          List.mem_cons_self rfl
      have hrep' : Represents s.links (l ++ next :: r) := by
        rw [<- horder]
        exact h.represents
      rcases insertBefore_spec hrep' (by rw [<- horder]; exact hid) hcell with
        ⟨links, hrun, hrep, htouches⟩
      refine ⟨{ s with links := links }, ?_,
        hdone links _ ?_ hrep ?_ ?_, links, rfl⟩
      · change (insertBefore next id s.links).bind _ = _
        rw [hrun]
        rfl
      · rw [hnode, horder]
        exact putBefore_middle hnl
      · rw [horder]
        exact List.perm_middle
      · rw [horder]
        exact htouches

/-- The buffer behind a removed one, or else the one in front of it, which is
the last one. -/
theorem neighbour (h : Shape s a) (hid : id ∈ a.order)
    {links : Heap BufferId}
    (hlinks : TailQueue.remove id s.links = some links) :
    State.ringNeighbour id { s with links := links } =
      some ((behind id a.order).or (a.order.erase id).getLast?) := by
  rcases List.append_of_mem hid with ⟨l, r, horder⟩
  have hnodup := h.represents.nodup
  rw [horder] at hnodup
  have hidl : id ∉ l := fun hmem =>
    (List.nodup_append.mp hnodup).2.2 id hmem id List.mem_cons_self rfl
  have hperm : (l ++ id :: r).Perm (id :: (l ++ r)) := List.perm_middle
  have hout : id ∉ l ++ r :=
    (List.nodup_cons.mp (hperm.nodup_iff.mp hnodup)).1
  have hrep : Represents s.links (l ++ id :: r) := by
    rw [<- horder]
    exact h.represents
  rcases remove_spec hrep with ⟨links', hrun, hrep', htouches⟩
  rw [hlinks] at hrun
  injection hrun with heq
  subst heq
  have hcell := htouches.other id hout
  have hnext : nextOf (.entry id) links = some r.head? := by
    rw [nextOf_congr hcell]
    exact hrep.nextOf_entry
  rw [horder, behind_middle hidl, erase_middle hidl]
  unfold State.ringNeighbour
  dsimp only
  rw [hnext]
  cases r with
  | cons next r => rfl
  | nil =>
      have hprev : prevOf (.entry id) links = some (lastNode l) := by
        rw [prevOf_congr hcell]
        exact hrep.around.2.1.2
      have hbefore := hrep'.entryBefore_of hprev
      rw [List.append_nil]
      exact hbefore

/-!
## Uses of buffers
-/

variable {buffer : Buffer}

theorem bufferEdit_eq (h : Shape s a) (hid : a.buffers id = some buffer) :
    s.bufferEdit id = some { s with
      focus := { s.focus with shown := some (.buffer id) } } := by
  unfold State.bufferEdit
  rw [h.buffers, hid]
  rfl

theorem bufferSetDirty_eq (h : Shape s a) (hid : a.buffers id = some buffer)
    (dirty : Bool) :
    s.bufferSetDirty id dirty =
      some (s.setBuffer id { buffer with dirty := dirty }) := by
  unfold State.bufferSetDirty
  rw [h.buffers, hid]
  rfl

theorem bufferSetFilename_eq (h : Shape s a)
    (hid : a.buffers id = some buffer) (filename : Option String) :
    s.bufferSetFilename id filename =
      some (s.setBuffer id { buffer with filename := filename }) := by
  unfold State.bufferSetFilename
  rw [h.buffers, hid]
  rfl

theorem ringRemoveBuffer_eq (h : Shape s a)
    (hid : a.buffers id = some buffer) {links : Heap BufferId}
    (hlinks : TailQueue.remove id s.links = some links) :
    s.ringRemoveBuffer id = some { s with links := links } := by
  unfold State.ringRemoveBuffer
  rw [hlinks]
  change (s.buffers id).bind _ = _
  rw [h.buffers, hid]
  rfl

end Shape

end BufferRing
end SciTECO
