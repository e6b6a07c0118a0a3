import SciTECO.Editing.SearchRing

/-!
# Searching from one buffer to another

With two numbers, the command `N` is to search the whole buffers from the first
number to the second.
-/

namespace SciTECO
namespace Editing

open EStateM Editor

/-!
## Numbers of buffers
-/

/-- A number counts the buffers of the ring from 1. -/
theorem ringFind_eq {id : TecoInt} {buffers : List Nat} (h : id ≠ 0) :
    ringFind id buffers = buffers[id.toNat - 1]? := by
  induction buffers generalizing id with
  | nil => rfl
  | cons buffer rest ih =>
      unfold ringFind
      by_cases hone : id - 1 = 0
      · rw [if_pos hone]
        have hid : id = 1 := by bv_omega
        rw [hid]
        rfl
      · rw [if_neg hone, ih hone]
        have hnat : id.toNat - 1 = (id - 1).toNat - 1 + 1 := by bv_omega
        rw [hnat, List.getElem?_cons_succ]

/-- The number of a buffer of the ring. -/
structure ValidId (id : TecoInt) (buffers : List Nat) : Prop where
  pos : 0 < id.toInt
  le : id.toInt ≤ buffers.length

namespace ValidId

variable {id : TecoInt} {buffers : List Nat}

theorem toNat_eq (h : ValidId id buffers) : (id.toNat : Int) = id.toInt := by
  have hpos := h.pos
  rw [BitVec.toInt_eq_toNat_cond] at hpos ⊢
  split
  · rfl
  · omega

theorem ne_zero (h : ValidId id buffers) : id ≠ 0 := by
  intro hzero
  have hpos := h.pos
  rw [hzero] at hpos
  exact absurd hpos (by decide)

theorem bounds (h : ValidId id buffers) :
    1 ≤ id.toNat ∧ id.toNat ≤ buffers.length := by
  have heq := h.toNat_eq
  have hpos := h.pos
  have hle := h.le
  omega

/-- The ring around a buffer. -/
theorem split (h : ValidId id buffers) :
    exists buffer, ringFind id buffers = some buffer ∧
      buffers = buffers.take (id.toNat - 1) ++
        buffer :: buffers.drop id.toNat := by
  have hbounds := h.bounds
  have hlt : id.toNat - 1 < buffers.length := by omega
  refine ⟨buffers[id.toNat - 1], ?_, ?_⟩
  · rw [ringFind_eq h.ne_zero, List.getElem?_eq_getElem hlt]
  · have hdrop := List.drop_eq_getElem_cons hlt
    have hsucc : id.toNat - 1 + 1 = id.toNat := by omega
    rw [hsucc] at hdrop
    rw [← hdrop, List.take_append_drop]

end ValidId

/-- Two buffers in the ring. -/
theorem ring_split {f t : TecoInt} {buffers : List Nat}
    (hf : ValidId f buffers) (ht : ValidId t buffers)
    (h : f.toNat < t.toNat) :
    exists before first between last after,
      ringFind f buffers = some first ∧ ringFind t buffers = some last ∧
        buffers = before ++ first :: (between ++ last :: after) ∧
        before.length = f.toNat - 1 ∧
        between.length = t.toNat - f.toNat - 1 := by
  rcases hf.split with ⟨first, hfirst, hsplit⟩
  rcases ht.split with ⟨last, hlast, _⟩
  have hf1 := hf.bounds
  have ht1 := ht.bounds
  have hget : (buffers.drop f.toNat)[t.toNat - f.toNat - 1]? = some last := by
    rw [ringFind_eq ht.ne_zero] at hlast
    rw [List.getElem?_drop, ← hlast]
    congr 1
    omega
  rcases List.getElem?_eq_some_iff.mp hget with ⟨hlt, hval⟩
  have hdrop := List.drop_eq_getElem_cons hlt
  rw [hval] at hdrop
  refine ⟨buffers.take (f.toNat - 1), first,
    (buffers.drop f.toNat).take (t.toNat - f.toNat - 1), last,
    (buffers.drop f.toNat).drop (t.toNat - f.toNat - 1 + 1), hfirst, hlast,
    ?_, ?_, ?_⟩
  · rw [← hdrop, List.take_append_drop]
    exact hsplit
  · rw [List.length_take]
    omega
  · rw [List.length_take]
    omega

/-!
## The buffers to be searched
-/

namespace Editor

/-- The whole buffers from one number to another, in this order. -/
def wholeBuffers (s : Editor) (f t : TecoInt) : List Part :=
  (if f.sle t then (s.buffers.take t.toNat).drop (f.toNat - 1)
    else ((s.buffers.take f.toNat).drop (t.toNat - 1)).reverse).map
      (fun buffer => s.whole (.buffer buffer))

end Editor

/-- The command goes through the whole buffers from one number to another and
through nothing else. -/
def CoversBuffers (f t : TecoInt) (s : Editor) : Prop :=
  exists bounds, searchAllBounds (.two f t) s = .ok bounds ∧
    (setSearchAllParameters bounds s).parts = s.wholeBuffers f t

/-- The search starts in a buffer. -/
def StartsIn (buffer : Nat) (s : Editor) : Prop :=
  (s.qregCurrent = none ∧ s.ringCurrent ≠ buffer) ∨ s.shown = .buffer buffer

/-- What the command finds where it goes through the whole buffers. -/
theorem CoversBuffers.found {f t : TecoInt} {s : Editor}
    (h : CoversBuffers f t s) :
    exists bounds, searchAllBounds (.two f t) s = .ok bounds ∧
      forall {Re : Type} (regexps : Regexps Re) (re : Re),
        (regexpOutcome regexps re (setSearchAllParameters bounds s)).map
            (Outcome.located (setSearchAllParameters bounds s)) =
          (searchParts regexps re s.documents (s.wholeBuffers f t)
            (if f.sle t then 1 else -1)).map Prod.snd := by
  rcases h with ⟨bounds, hbounds, hparts⟩
  have hcount : bounds.count = if f.sle t then 1 else -1 := by
    unfold searchAllBounds findBounds at hbounds
    dsimp only at hbounds
    by_cases hsle : f.sle t
    · rw [if_pos hsle] at hbounds ⊢
      split at hbounds
      · cases hbounds
        rfl
      · cases hbounds
    · rw [if_neg hsle] at hbounds ⊢
      split at hbounds
      · cases hbounds
        rfl
      · cases hbounds
  refine ⟨bounds, hbounds, ?_⟩
  intro Re regexps re
  rw [← hparts, ← hcount]
  apply regexpOutcome_parts
  change bounds.count ≠ 0
  rw [hcount]
  split <;> decide

/-- The first number is less than the second one, the search starts in the
first buffer, the current document has the length of this buffer and its dot is
at its start, and the last buffer is empty. -/
structure CoveredBuffers (f t : TecoInt) (s : Editor) : Prop where
  order : f.toInt < t.toInt
  starts : forall first, ringFind f s.buffers = some first -> StartsIn first s
  dot : s.document.dot = 0
  size : forall first, ringFind f s.buffers = some first ->
    s.document.text.length = (s.documents (.buffer first)).text.length
  last : forall last, ringFind t s.buffers = some last ->
    (s.documents (.buffer last)).text.length = 0

section

variable {s : Editor} {f t : TecoInt}

theorem subject_iff {bounds : Bounds} {buffer : Nat}
    (h : bounds.fromBuffer = some buffer) :
    (setSearchAllParameters bounds s).subject = .buffer buffer <->
      StartsIn buffer s := by
  unfold StartsIn
  rw [subject_of_fromBuffer h]
  change (if s.qregCurrent = none ∧ s.ringCurrent ≠ buffer then _ else s.shown)
    = _ <-> _
  by_cases hswitch : s.qregCurrent = none ∧ s.ringCurrent ≠ buffer
  · rw [if_pos hswitch]
    exact ⟨fun _ => Or.inl hswitch, fun _ => rfl⟩
  · rw [if_neg hswitch]
    constructor
    · intro hshown
      exact Or.inr hshown
    · intro hstarts
      cases hstarts with
      | inl h => exact absurd h hswitch
      | inr hshown => exact hshown

theorem take_drop_split {before between after : List Nat}
    {first last : Nat} {m n : Nat} (hm : m = before.length)
    (hn : n = before.length + between.length + 2) :
    ((before ++ first :: (between ++ last :: after)).take n).drop m =
      first :: (between ++ [last]) := by
  have happend : before ++ first :: (between ++ last :: after) =
      (before ++ first :: (between ++ [last])) ++ after := by simp
  rw [happend, List.take_left' (by simp; omega), List.drop_left' hm.symm]

theorem nodup_split {before between after : List Nat} {first last : Nat}
    (h : (before ++ first :: (between ++ last :: after)).Nodup) :
    first ∉ before ∧ first ∉ between ++ last :: after ∧ last ∉ between ∧
      first ≠ last := by
  have hsplit := List.nodup_append.mp h
  have hcons := List.nodup_cons.mp hsplit.2.1
  have hbetween := List.nodup_append.mp hcons.2
  refine ⟨?_, hcons.1, ?_, ?_⟩
  · intro hmem
    exact hsplit.2.2 first hmem first List.mem_cons_self rfl
  · intro hmem
    exact hbetween.2.2 last hmem last List.mem_cons_self rfl
  · intro heq
    apply hcons.1
    rw [heq]
    exact List.mem_append_right _ List.mem_cons_self

theorem ringParts_bounds {bounds : Bounds} {fromBuffer toBuffer : Nat}
    (hfrom : bounds.fromBuffer = some fromBuffer)
    (hto : bounds.toBuffer = some toBuffer) (count : Int) :
    (setSearchAllParameters bounds s).ringParts count =
      (upTo toBuffer (following fromBuffer
        (if 0 < count then s.buffers else s.buffers.reverse))).map
          ((setSearchAllParameters bounds s).ringPart count toBuffer) :=
  ringParts_of_buffers hfrom hto count

/-- The ranges of a search in ascending order. -/
theorem parts_ascending {before between after : List Nat} {first last : Nat}
    (hbuffers : s.buffers = before ++ first :: (between ++ last :: after))
    (hnodup : s.buffers.Nodup) {bounds : Bounds}
    (hcount : bounds.count = 1) (hfrom : bounds.fromBuffer = some first)
    (hto : bounds.toBuffer = some last) :
    (setSearchAllParameters bounds s).parts =
      { view := (setSearchAllParameters bounds s).subject
        fromPos := s.document.dot, toPos := s.document.text.length } ::
        (between.map (fun buffer => s.whole (.buffer buffer)) ++
          [{ s.whole (.buffer last) with toPos := s.document.dot }]) := by
  rw [hbuffers] at hnodup
  have hsplit := nodup_split hnodup
  have hring : following first s.buffers =
      between ++ last :: (after ++ before ++ [first]) := by
    have hothers : others first
        (before ++ first :: (between ++ last :: after)) = _ :=
      others_split hsplit.1
    rw [← hbuffers] at hothers
    change others first s.buffers ++ [first] = _
    rw [hothers]
    simp
  have hparts : (setSearchAllParameters bounds s).ringParts 1 =
      between.map (fun buffer => s.whole (.buffer buffer)) ++
        [{ s.whole (.buffer last) with toPos := s.document.dot }] := by
    rw [ringParts_bounds hfrom hto, if_pos (by decide), hring,
      upTo_split hsplit.2.2.1, List.map_append]
    congr 1
    · apply List.map_congr_left
      intro buffer hbuffer
      apply if_neg
      intro heq
      rw [heq] at hbuffer
      exact hsplit.2.2.1 hbuffer
    · exact congrArg (fun part => [part]) (if_pos rfl)
  unfold parts
  change Part.mk _ (if 0 ≤ bounds.count then _ else _ : Int).toNat
    (if 0 ≤ bounds.count then _ else _ : Int).toNat ::
      (setSearchAllParameters bounds s).ringParts bounds.count = _
  rw [hcount, hparts, if_pos (by decide), if_pos (by decide)]
  rfl

/-- With ascending numbers the ranges are whole buffers only if nothing is
before the dot and the last buffer is empty. -/
theorem covers_ascending (hf : ValidId f s.buffers) (ht : ValidId t s.buffers)
    (hnodup : s.buffers.Nodup) (h : f.toInt < t.toInt) :
    CoversBuffers f t s <-> CoveredBuffers f t s := by
  have hf' := hf.toNat_eq
  have ht' := ht.toNat_eq
  rcases ring_split hf ht (by omega) with
    ⟨before, first, between, last, after, hfirst, hlast, hbuffers, hbefore,
      hbetween⟩
  have hsle : f.sle t = true := by
    rw [BitVec.sle_iff_toInt_le]
    omega
  let bounds : Bounds :=
    { count := 1, fromBuffer := some first, toBuffer := some last }
  have hbounds : searchAllBounds (.two f t) s = .ok bounds := by
    unfold searchAllBounds findBounds
    dsimp only
    rw [if_pos hsle, hfirst, hlast]
  have hwhole : s.wholeBuffers f t =
      s.whole (.buffer first) ::
        (between.map (fun buffer => s.whole (.buffer buffer)) ++
          [s.whole (.buffer last)]) := by
    unfold wholeBuffers
    have hbounds := hf.bounds
    rw [if_pos hsle, hbuffers,
      take_drop_split hbefore.symm (by omega)]
    simp
  have hparts : (setSearchAllParameters bounds s).parts = _ :=
    parts_ascending hbuffers hnodup rfl rfl rfl
  have hcovers : CoversBuffers f t s <->
      (setSearchAllParameters bounds s).parts = s.wholeBuffers f t := by
    constructor
    · rintro ⟨bounds', hbounds', hcovers⟩
      rw [hbounds] at hbounds'
      cases hbounds'
      exact hcovers
    · intro hcovers
      exact ⟨bounds, hbounds, hcovers⟩
  rw [hcovers, hparts, hwhole]
  have hsubject : (setSearchAllParameters bounds s).subject =
      .buffer first <-> StartsIn first s := subject_iff rfl
  constructor
  · intro heq
    have hhead := Part.mk.inj (List.cons.inj heq).1
    have htail := Part.mk.inj (List.singleton_injective
      (List.append_cancel_left (List.cons.inj heq).2))
    refine
      { order := h
        starts := ?_
        dot := hhead.2.1
        size := ?_
        last := ?_ }
    · intro first' hfirst'
      rw [hfirst] at hfirst'
      cases hfirst'
      exact hsubject.mp hhead.1
    · intro first' hfirst'
      rw [hfirst] at hfirst'
      cases hfirst'
      exact hhead.2.2
    · intro last' hlast'
      rw [hlast] at hlast'
      cases hlast'
      exact htail.2.2.symm.trans hhead.2.1
  · intro hcovered
    have hview := hsubject.mpr (hcovered.starts first hfirst)
    have hsize := hcovered.size first hfirst
    have hempty := hcovered.last last hlast
    rw [hview, hcovered.dot, hsize]
    unfold whole
    rw [hempty]

theorem upTo_ends {toBuffer : Nat} {ring : List Nat} (h : toBuffer ∈ ring) :
    exists before, upTo toBuffer ring = before ++ [toBuffer] := by
  induction ring with
  | nil => cases h
  | cons buffer rest ih =>
      unfold upTo
      by_cases heq : buffer = toBuffer
      · rw [if_pos heq, heq]
        exact ⟨[], rfl⟩
      · rw [if_neg heq]
        have hrest : toBuffer ∈ rest := by
          cases h with
          | head => exact absurd rfl heq
          | tail _ hrest => exact hrest
        rcases ih hrest with ⟨before, hbefore⟩
        exists buffer :: before
        rw [hbefore, List.cons_append]

/-- The last range of a search is in its last buffer. -/
theorem parts_ends (bounds : Bounds) {fromBuffer toBuffer : Nat}
    (hfrom : bounds.fromBuffer = some fromBuffer)
    (hto : bounds.toBuffer = some toBuffer)
    (hmem : toBuffer ∈ following fromBuffer
      (if 0 < bounds.count then s.buffers else s.buffers.reverse)) :
    exists first before last, (setSearchAllParameters bounds s).parts =
      first :: (before ++ [last]) ∧ last.view = .buffer toBuffer := by
  rcases upTo_ends hmem with ⟨before, hbefore⟩
  have hring := ringParts_bounds (s := s) hfrom hto bounds.count
  rw [hbefore, List.map_append, List.map_singleton] at hring
  refine ⟨_, _, _, congrArg (List.cons _) hring, ?_⟩
  unfold ringPart
  split
  · split <;> rfl
  · rfl

/-- With a number twice the search goes around the ring. -/
theorem not_covers_same (hf : ValidId f s.buffers) :
    ¬ CoversBuffers f f s := by
  rintro ⟨bounds, hbounds, hcovers⟩
  rcases hf.split with ⟨first, hfirst, _⟩
  have hsle : f.sle f = true := BitVec.sle_iff_toInt_le.mpr (Int.le_refl _)
  unfold searchAllBounds findBounds at hbounds
  dsimp only at hbounds
  rw [if_pos hsle, hfirst] at hbounds
  cases hbounds
  rcases parts_ends (s := s)
    { count := 1, fromBuffer := some first, toBuffer := some first } rfl rfl
    (List.mem_append_right _ List.mem_cons_self) with
      ⟨head, before, last, hparts, _⟩
  have hlength := congrArg List.length (hparts.symm.trans hcovers)
  unfold wholeBuffers at hlength
  have hbounds := hf.bounds
  rw [if_pos hsle, List.length_map, List.length_drop, List.length_take,
    List.length_cons, List.length_append] at hlength
  simp only [List.length_cons, List.length_nil] at hlength
  omega

/-- With descending numbers the search ends in the buffer where it is to
start. -/
theorem not_covers_descending (hf : ValidId f s.buffers)
    (ht : ValidId t s.buffers) (hnodup : s.buffers.Nodup)
    (h : t.toInt < f.toInt) : ¬ CoversBuffers f t s := by
  rintro ⟨bounds, hbounds, hcovers⟩
  have hf' := hf.toNat_eq
  have ht' := ht.toNat_eq
  rcases ring_split ht hf (by omega) with
    ⟨before, first, between, last, after, hfirst, hlast, hbuffers, hbefore,
      hbetween⟩
  have hsplit := hnodup
  rw [hbuffers] at hsplit
  have hsplit := nodup_split hsplit
  have hsle : ¬ f.sle t = true := by
    rw [BitVec.sle_iff_toInt_le]
    omega
  unfold searchAllBounds findBounds at hbounds
  dsimp only at hbounds
  rw [if_neg hsle, hfirst, hlast] at hbounds
  cases hbounds
  have hmem : last ∈ following first s.buffers.reverse := by
    apply List.mem_append_left
    change last ∈ others first s.buffers.reverse
    have hfirstMem : first ∈ s.buffers := by
      rw [hbuffers]
      simp
    rw [others_reverse hfirstMem hnodup, hbuffers, others_split hsplit.1]
    simp
  rcases parts_ends (s := s)
    { count := -1, fromBuffer := some first, toBuffer := some last } rfl rfl
    hmem with ⟨head, middle, end', hparts, hview⟩
  have hwhole : s.wholeBuffers f t =
      (s.whole (.buffer last) ::
        (between.reverse.map (fun buffer => s.whole (.buffer buffer)))) ++
          [s.whole (.buffer first)] := by
    unfold wholeBuffers
    have hbounds := ht.bounds
    rw [if_neg hsle, hbuffers, take_drop_split hbefore.symm (by omega)]
    simp
  rw [hparts, hwhole, ← List.cons_append] at hcovers
  have hlast := List.singleton_injective
    (List.append_inj_right' hcovers rfl)
  rw [hlast] at hview
  have heq := View.buffer.inj hview
  exact hsplit.2.2.2 heq

/-- A search from one buffer to another goes exactly through the whole buffers
in a case where it starts at their beginning and the last one is empty. -/
theorem searchAll_covers_iff (hf : ValidId f s.buffers)
    (ht : ValidId t s.buffers) (hnodup : s.buffers.Nodup) :
    CoversBuffers f t s <-> CoveredBuffers f t s := by
  rcases Int.lt_trichotomy f.toInt t.toInt with hless | hsame | hgreater
  · exact covers_ascending hf ht hnodup hless
  · have heq : f = t := BitVec.toInt_inj.mp hsame
    subst heq
    constructor
    · intro hcovers
      exact absurd hcovers (not_covers_same hf)
    · intro hcovered
      exact absurd hcovered.order (Int.lt_irrefl _)
  · constructor
    · intro hcovers
      exact absurd hcovers (not_covers_descending hf ht hnodup hgreater)
    · intro hcovered
      have horder := hcovered.order
      omega

end

/-- From the first buffer to the second one, which is empty. -/
theorem searchAll_covers_emptySecond : CoversBuffers 1 2 emptySecond := by
  have hf : ValidId 1 emptySecond.buffers := ⟨by decide, by decide⟩
  have ht : ValidId 2 emptySecond.buffers := ⟨by decide, by decide⟩
  apply (searchAll_covers_iff hf ht (by decide)).mpr
  refine
    { order := by decide
      starts := ?_
      dot := rfl
      size := ?_
      last := ?_ }
  · intro first hfirst
    cases hfirst
    exact Or.inr rfl
  · intro first hfirst
    cases hfirst
    rfl
  · intro last hlast
    cases hlast
    rfl

/-- From the third buffer back to the first one, only these two are searched
up to the dot and from it. -/
theorem searchAll_skips_second :
    searchAllBounds (.two 3 1) threeBuffers = .ok
        { count := -1, fromBuffer := some 0, toBuffer := some 2 } ∧
      (setSearchAllParameters
        { count := -1, fromBuffer := some 0, toBuffer := some 2 }
        threeBuffers).parts =
        [{ view := .buffer 0, fromPos := 0, toPos := 2 },
          { view := .buffer 2, fromPos := 2, toPos := 4 }] ∧
      ¬ CoversBuffers 3 1 threeBuffers := by
  refine ⟨rfl, by decide, ?_⟩
  apply not_covers_descending ⟨by decide, by decide⟩ ⟨by decide, by decide⟩
  · decide
  · decide

end Editing
end SciTECO
