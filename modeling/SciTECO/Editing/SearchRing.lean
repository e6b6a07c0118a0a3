import SciTECO.Editing.SearchAll

/-!
# Searching around the ring

A search with a count goes around the ring, from the dot of the current buffer
back to this dot.
-/

namespace SciTECO
namespace Editing

open EStateM Editor SignedIndex

/-!
## The way around the ring
-/

/-- The other buffers, from the one behind a buffer around the ring. -/
def others (buffer : Nat) (buffers : List Nat) : List Nat :=
  (buffers.dropWhile (fun b => b ≠ buffer)).tail ++
    buffers.takeWhile (fun b => b ≠ buffer)

namespace Editor

/-- A buffer is edited, which is in the ring once. -/
structure EditsBuffer (s : Editor) : Prop where
  qregCurrent : s.qregCurrent = none
  shown : s.shown = .buffer s.ringCurrent
  current_mem : s.ringCurrent ∈ s.buffers
  nodup : s.buffers.Nodup

/-- The current buffer from the dot on, the other buffers and the current
buffer up to the dot. -/
def circle (s : Editor) : List Part :=
  { s.whole s.shown with fromPos := s.document.dot } ::
    ((others s.ringCurrent s.buffers).map (fun b => s.whole (.buffer b)) ++
      [{ s.whole s.shown with toPos := s.document.dot }])

end Editor

theorem others_split {buffer : Nat} {before after : List Nat}
    (hbefore : buffer ∉ before) :
    others buffer (before ++ buffer :: after) = after ++ before := by
  have hne : forall b, b ∈ before -> decide (b ≠ buffer) = true := by
    intro b hb
    rw [decide_eq_true_eq]
    intro heq
    rw [heq] at hb
    exact hbefore hb
  unfold others
  rw [List.dropWhile_append_of_pos hne, List.takeWhile_append_of_pos hne]
  simp

/-- Going around the ring backwards is the reverse of going forwards. -/
theorem others_reverse {buffer : Nat} {buffers : List Nat}
    (hmem : buffer ∈ buffers) (hnodup : buffers.Nodup) :
    others buffer buffers.reverse = (others buffer buffers).reverse := by
  rcases List.append_of_mem hmem with ⟨before, after, rfl⟩
  have hsplit := List.nodup_append.mp hnodup
  have hbefore : buffer ∉ before := by
    intro h
    exact hsplit.2.2 buffer h buffer List.mem_cons_self rfl
  have hafter : buffer ∉ after := (List.nodup_cons.mp hsplit.2.1).1
  have hreverse : (before ++ buffer :: after).reverse =
      after.reverse ++ buffer :: before.reverse := by simp
  rw [hreverse, others_split hbefore,
    others_split (fun h => hafter (List.mem_reverse.mp h)),
    List.reverse_append]

theorem not_mem_others {buffer : Nat} {buffers : List Nat}
    (hmem : buffer ∈ buffers) (hnodup : buffers.Nodup) :
    buffer ∉ others buffer buffers := by
  rcases List.append_of_mem hmem with ⟨before, after, rfl⟩
  have hsplit := List.nodup_append.mp hnodup
  have hbefore : buffer ∉ before := by
    intro h
    exact hsplit.2.2 buffer h buffer List.mem_cons_self rfl
  rw [others_split hbefore, List.mem_append]
  intro h
  cases h with
  | inl hafter => exact (List.nodup_cons.mp hsplit.2.1).1 hafter
  | inr hmem => exact hbefore hmem

theorem upTo_split {toBuffer : Nat} {before after : List Nat}
    (h : toBuffer ∉ before) :
    upTo toBuffer (before ++ toBuffer :: after) = before ++ [toBuffer] := by
  induction before with
  | nil => simp [upTo]
  | cons b rest ih =>
      rw [List.mem_cons, not_or] at h
      rw [List.cons_append]
      unfold upTo
      rw [if_neg (fun heq => h.1 heq.symm), ih h.2, List.cons_append]

/-- A loop around the ring back to a buffer. -/
theorem ringPart_others {s : Editor} {count : Int} {buffer : Nat}
    {ring : List Nat} (h : buffer ∉ ring) :
    (upTo buffer (ring ++ [buffer])).map (s.ringPart count buffer) =
      ring.map (fun b => s.whole (.buffer b)) ++
        [s.ringPart count buffer buffer] := by
  rw [upTo_split h, List.map_append, List.map_singleton]
  congr 1
  apply List.map_congr_left
  intro b hb
  apply if_neg
  intro heq
  rw [heq] at hb
  exact h hb

section

variable {s : Editor} {bounds : Bounds}

/-- The ranges behind the current document, for a search that comes back to
it. -/
theorem ringParts_current (hplain : s.EditsBuffer)
    (hfrom : bounds.fromBuffer = some s.ringCurrent)
    (hto : bounds.toBuffer = some s.ringCurrent) (count : Int) :
    (setSearchAllParameters bounds s).ringParts count =
      (if 0 < count then others s.ringCurrent s.buffers
        else (others s.ringCurrent s.buffers).reverse).map
          (fun b => s.whole (.buffer b)) ++
        [if 0 < count then { s.whole s.shown with toPos := s.document.dot }
          else { s.whole s.shown with fromPos := s.document.dot }] := by
  have hnot := not_mem_others hplain.current_mem hplain.nodup
  have hlast : (setSearchAllParameters bounds s).ringPart count s.ringCurrent
      s.ringCurrent =
        if 0 < count then { s.whole s.shown with toPos := s.document.dot }
          else { s.whole s.shown with fromPos := s.document.dot } := by
    rw [hplain.shown]
    exact if_pos rfl
  rw [ringParts_of_buffers hfrom hto, ← hlast]
  by_cases hpos : 0 < count
  · rw [if_pos hpos, if_pos hpos]
    exact ringPart_others hnot
  · rw [if_neg hpos, if_neg hpos]
    have hreverse := others_reverse hplain.current_mem hplain.nodup
    have hnot' : s.ringCurrent ∉ others s.ringCurrent s.buffers.reverse := by
      rw [hreverse, List.mem_reverse]
      exact hnot
    rw [← hreverse]
    exact ringPart_others hnot'

theorem subject_current
    (hfrom : bounds.fromBuffer = some s.ringCurrent) :
    (setSearchAllParameters bounds s).subject = s.shown := by
  rw [subject_of_fromBuffer hfrom]
  apply if_neg
  intro h
  exact h.2 rfl

/-- Searching forwards goes around the ring. -/
theorem parts_forwards (hplain : s.EditsBuffer)
    (hfrom : bounds.fromBuffer = some s.ringCurrent)
    (hto : bounds.toBuffer = some s.ringCurrent) (hcount : 0 < bounds.count) :
    (setSearchAllParameters bounds s).parts = s.circle := by
  have hring := ringParts_current hplain hfrom hto bounds.count
  unfold parts circle
  rw [subject_current hfrom]
  change _ :: (setSearchAllParameters bounds s).ringParts bounds.count = _
  rw [hring, if_pos hcount, if_pos hcount]
  congr 1
  change Part.mk s.shown (if 0 ≤ bounds.count then _ else _ : Int).toNat
    (if 0 ≤ bounds.count then _ else _ : Int).toNat = _
  rw [if_pos (by omega), if_pos (by omega)]
  rfl

/-- Searching backwards goes around the ring in the other direction. -/
theorem parts_backwards (hplain : s.EditsBuffer)
    (hfrom : bounds.fromBuffer = some s.ringCurrent)
    (hto : bounds.toBuffer = some s.ringCurrent) (hcount : bounds.count < 0) :
    (setSearchAllParameters bounds s).parts = s.circle.reverse := by
  have hring := ringParts_current hplain hfrom hto bounds.count
  unfold parts circle
  rw [subject_current hfrom]
  change _ :: (setSearchAllParameters bounds s).ringParts bounds.count = _
  rw [hring, if_neg (by omega), if_neg (by omega)]
  simp only [List.reverse_cons, List.reverse_append, List.reverse_nil,
    List.nil_append, List.cons_append, List.map_reverse]
  congr 1
  change Part.mk s.shown (if 0 ≤ bounds.count then _ else _ : Int).toNat
    (if 0 ≤ bounds.count then _ else _ : Int).toNat = _
  rw [if_neg (by omega), if_neg (by omega)]
  rfl

end

/-!
## The match that a number selects
-/

/-- A match has been selected, and its buffer is the current one. -/
structure Selected (found : Located) (s t : Editor) : Prop where
  success : isSuccess t.searchState = true
  shown : t.shown = found.view
  ringCurrent : found.view = .buffer t.ringCurrent
  document : t.document = (s.documents found.view).setSel
    (found.hit.offset + (max found.hit.found.whole.1 0).toNat)
    (found.hit.offset + (max found.hit.found.whole.2 0).toNat)

/-- Nothing has been found, and the editor is where it was. -/
structure Missed (s t : Editor) : Prop where
  failure : isSuccess t.searchState = false
  shown : t.shown = s.shown
  ringCurrent : t.ringCurrent = s.ringCurrent
  dot : t.document.dot = s.document.dot

/-- A positive number counts the matches around the ring from the dot, a
negative one counts them backwards. -/
structure SelectsAround (n : Int) (located : List Located) (s t : Editor) :
    Prop where
  forwards : 0 < n -> forall found, located[n.natAbs - 1]? = some found ->
    Selected found s t
  backwards : n < 0 -> n.natAbs ≤ located.length ->
    forall found, located[located.length - n.natAbs]? = some found ->
      Selected found s t
  missed : located.length < n.natAbs -> Missed s t

/-- The number fits into a count, or the count is still greater than the number
of matches, and there is enough memory for the matches to be kept. -/
def CountableAround {Re : Type} (regexps : Regexps Re) (n : TecoInt)
    (located : List Located) : Prop :=
  gint n ≠ 0 ∧ (gint n = n.toInt ∨ located.length < (gint n).natAbs) ∧
    (gint n < 0 -> regexps.memoryCheck (gint n).natAbs = .ok ())

/-!
## The end of the command keeps the selection
-/

theorem setAnchor_self (d : Document) : d.setAnchor d.anchor = d := by
  unfold Document.setAnchor Document.setSel
  cases d with
  | mk text anchor dot history characterIndex anchor_le dot_le =>
      congr 1
      · exact Nat.min_eq_left anchor_le
      · exact Nat.min_eq_left dot_le

theorem setSearchString_document (str : Bytes) {t : Editor} {buffer : Nat}
    (hshown : t.shown = .buffer buffer) :
    (setSearchString str t).document = t.document := by
  have hsame := document_untracked (setSearchString_untracked str t)
  rw [hsame]
  unfold ssm document withString
  dsimp only
  rw [hshown, Function.update_self, Function.update_of_ne (by simp),
    setAnchor_self]

theorem setSearchString_shown (str : Bytes) (t : Editor) :
    (setSearchString str t).shown = t.shown := by
  have hsame := congrArg Editor.shown (setSearchString_untracked str t)
  exact hsame

theorem setSearchString_ringCurrent (str : Bytes) (t : Editor) :
    (setSearchString str t).ringCurrent = t.ringCurrent := by
  have hsame := congrArg Editor.ringCurrent (setSearchString_untracked str t)
  exact hsame

theorem setSearchString_searchState (str : Bytes) (t : Editor) :
    (setSearchString str t).searchState = t.searchState := by
  have hsame := congrArg Editor.searchState (setSearchString_untracked str t)
  exact hsame

/-- What the end of the command leaves as it is. -/
structure Kept (t u : Editor) : Prop where
  success : u.searchState = t.searchState
  shown : u.shown = t.shown
  ringCurrent : u.ringCurrent = t.ringCurrent
  document : u.document = t.document

theorem pushState_kept (modifierColon : Nat) (t : Editor) :
    Kept t (pushState modifierColon t) := by
  unfold pushState
  split
  · exact ⟨rfl, rfl, rfl, rfl⟩
  · exact ⟨rfl, rfl, rfl, rfl⟩

theorem finishSearch_kept (str : Bytes) (modifierColon : Nat) {t : Editor}
    {buffer : Nat} (hshown : t.shown = .buffer buffer) :
    Kept t (finishSearch str modifierColon t) := by
  unfold finishSearch
  by_cases hempty : str = []
  · rw [if_pos hempty]
    exact pushState_kept modifierColon t
  · rw [if_neg hempty]
    have hpush := pushState_kept modifierColon (setSearchString str t)
    exact
      { success :=
          hpush.success.trans (setSearchString_searchState str t)
        shown := hpush.shown.trans (setSearchString_shown str t)
        ringCurrent :=
          hpush.ringCurrent.trans (setSearchString_ringCurrent str t)
        document :=
          hpush.document.trans (setSearchString_document str hshown) }

theorem Selected.kept {found : Located} {s t u : Editor}
    (h : Selected found s t) (hkept : Kept t u) : Selected found s u :=
  { success := by
      rw [hkept.success]
      exact h.success
    shown := hkept.shown.trans h.shown
    ringCurrent := by
      rw [hkept.ringCurrent]
      exact h.ringCurrent
    document := hkept.document.trans h.document }

theorem Missed.kept {s t u : Editor} (h : Missed s t) (hkept : Kept t u) :
    Missed s u :=
  { failure := by
      rw [hkept.success]
      exact h.failure
    shown := hkept.shown.trans h.shown
    ringCurrent := hkept.ringCurrent.trans h.ringCurrent
    dot := by
      rw [hkept.document]
      exact h.dot }

/-!
## The outcome around the ring
-/

section

variable {Re : Type} (sci : Scintilla) (regexps : Regexps Re)

/-- The outcomes of a search that may go on in other buffers. -/
theorem regexpOutcome_cases {re : Re} {s : Editor} {fromBuffer toBuffer : Nat}
    {o : Outcome} (hfrom : s.searchParameters.fromBuffer = some fromBuffer)
    (hto : s.searchParameters.toBuffer = some toBuffer)
    (hmem : toBuffer ∈ following fromBuffer s.buffers)
    (hmem' : toBuffer ∈ following fromBuffer s.buffers.reverse)
    (hcount : s.searchParameters.count ≠ 0)
    (h : regexpOutcome regexps re s = .ok o) :
    (exists hit, o = .found hit) ∨ (exists buffer hit, o = .ring buffer (some hit)) ∨
      o = .ring toBuffer none := by
  rcases except_bind_ok h with ⟨result, hfind, hpure⟩
  by_cases hzero : result.1 = 0
  · rw [if_pos hzero] at hpure
    apply Or.inl
    have hfound := (findHit_zero regexps hcount hfind).mp hzero
    rcases result with ⟨rest, hit⟩
    cases hit with
    | none => cases hfound
    | some hit =>
        cases hpure
        exists hit
  · rw [if_neg hzero] at hpure
    apply Or.inr
    unfold ringOutcome at hpure
    rw [hfrom, hto] at hpure
    rcases except_bind_ok hpure with ⟨⟨rest, last, hit⟩, hring, ho⟩
    cases ho
    cases hit with
    | some hit =>
        apply Or.inl
        exists last, hit
    | none =>
        apply Or.inr
        have hlast := findInRing_missed regexps hzero ?_ hring rfl
        · dsimp only at hlast
          rw [hlast]
        · split
          · exact hmem
          · exact hmem'

theorem select_document (hit : Hit) (t : Editor) :
    (select sci hit t).document = t.document.setSel
      (hit.offset + (max hit.found.whole.1 0).toNat)
      (hit.offset + (max hit.found.whole.2 0).toNat) := by
  unfold select ssm document
  dsimp only
  rw [Function.update_self]

theorem gotoPos_dot {d : Document} {pos : Nat} (h : pos ≤ d.text.length) :
    (d.gotoPos pos).dot = pos := Nat.min_eq_left h

/-- The bounds of a search around the ring. -/
def Bounds.around (count : Int) (s : Editor) : Bounds :=
  { count := count, fromBuffer := some s.ringCurrent
    toBuffer := some s.ringCurrent }

theorem searchAllBounds_around {s : Editor} (hplain : s.EditsBuffer)
    (n : TecoInt) :
    searchAllBounds (.one n) s = .ok (Bounds.around (gint n) s) := by
  unfold searchAllBounds
  dsimp only
  rw [if_pos hplain.qregCurrent]
  rfl

variable {s : Editor} {count : Int} {o : Outcome}

/-- The effect of finding a match around the ring. -/
theorem play_selected {found : Located} (hplain : s.EditsBuffer)
    (hfound : o.located (setSearchAllParameters (Bounds.around count s) s) =
      some found) :
    Selected found s
      (play sci o (setSearchAllParameters (Bounds.around count s) s)) := by
  have hsubject : (setSearchAllParameters (Bounds.around count s) s).subject =
      s.shown := subject_current rfl
  cases o with
  | invalid => cases hfound
  | kept => cases hfound
  | missed => cases hfound
  | found hit =>
      cases hfound
      refine
        { success := rfl
          shown := rfl
          ringCurrent := hsubject.trans hplain.shown
          document := ?_ }
      have hselect := select_document sci hit
        (setSearchAllParameters (Bounds.around count s) s).editSubject
      exact hselect
  | ring buffer hit =>
      cases hit with
      | none => cases hfound
      | some hit =>
          cases hfound
          refine
            { success := rfl
              shown := rfl
              ringCurrent := rfl
              document := ?_ }
          have hselect := select_document sci hit
            ((setSearchAllParameters (Bounds.around count s) s).enter buffer)
          exact hselect

/-- The effect of missing around the ring. -/
theorem play_missed (hplain : s.EditsBuffer) :
    Missed s (play sci (.ring s.ringCurrent none)
      (setSearchAllParameters (Bounds.around count s) s)) := by
  refine
    { failure := rfl
      shown := hplain.shown.symm
      ringCurrent := rfl
      dot := ?_ }
  have hdocument : (play sci (.ring s.ringCurrent none)
      (setSearchAllParameters (Bounds.around count s) s)).document =
        s.document.gotoPos s.document.dot := by
    have hshown : s.documents (.buffer s.ringCurrent) = s.document := by
      unfold document
      rw [hplain.shown]
    unfold play setSearchState searchFailure ssm enter
    change Function.update _ _ _ _ = _
    rw [Function.update_self]
    change Document.gotoPos s.document.dot
      (s.documents (.buffer s.ringCurrent)) = _
    rw [hshown]
  rw [hdocument]
  exact gotoPos_dot s.document.dot_le

/-- A search with a count around the ring. -/
theorem regexpOutcome_around {re : Re} {located : List Located}
    (hplain : s.EditsBuffer)
    (hlocated : locate regexps re s.documents s.circle = .ok located)
    (hcount : count ≠ 0)
    (hmemory : count < 0 -> forall number, number ≤ count.natAbs ->
      regexps.memoryCheck number = .ok ()) :
    exists o, regexpOutcome regexps re
        (setSearchAllParameters (Bounds.around count s) s) = .ok o ∧
      o.located (setSearchAllParameters (Bounds.around count s) s) =
        (pick count located).2 ∧
      ((pick count located).2 = none -> o = .ring s.ringCurrent none) := by
  have hparts : searchParts regexps re s.documents
      (setSearchAllParameters (Bounds.around count s) s).parts count =
        .ok (pick count located) := by
    by_cases hpos : 0 < count
    · rw [parts_forwards hplain rfl rfl hpos]
      exact searchParts_forwards regexps hlocated hpos
    · rw [parts_backwards hplain rfl rfl
        (show (Bounds.around count s).count < 0 by
          change count < 0
          omega)]
      apply searchParts_backwards regexps _ (by omega) (hmemory (by omega))
      rw [List.reverse_reverse]
      exact hlocated
  have houtcome : (regexpOutcome regexps re
      (setSearchAllParameters (Bounds.around count s) s)).map
        (Outcome.located
          (setSearchAllParameters (Bounds.around count s) s)) =
      (searchParts regexps re s.documents
        (setSearchAllParameters (Bounds.around count s) s).parts
        count).map Prod.snd :=
    regexpOutcome_parts regexps hcount
  rw [hparts] at houtcome
  cases hrun : regexpOutcome regexps re
      (setSearchAllParameters (Bounds.around count s) s) with
  | error err =>
      rw [hrun] at houtcome
      cases houtcome
  | ok o =>
      rw [hrun] at houtcome
      have ho := Except.ok.inj houtcome
      refine ⟨o, rfl, ho, ?_⟩
      intro hnone
      have hmem : forall ring, s.ringCurrent ∈ following s.ringCurrent ring := by
        intro ring
        exact List.mem_append_right _ List.mem_cons_self
      rcases regexpOutcome_cases regexps rfl rfl (hmem _) (hmem _) hcount hrun with
        ⟨hit, rfl⟩ | ⟨buffer, hit, rfl⟩ | hring
      · rw [hnone] at ho
        cases ho
      · rw [hnone] at ho
        cases ho
      · exact hring

/-- A count of 0 does not miss.  The rest of the count is the number of
matches behind the dot, where the search comes back to. -/
theorem regexpOutcome_zero {re : Re} {located : List Located}
    (hplain : s.EditsBuffer)
    (hlocated : locate regexps re s.documents s.circle = .ok located)
    (ho : regexpOutcome regexps re
      (setSearchAllParameters (Bounds.around 0 s) s) = .ok o) :
    o = .kept ∨ exists found, o.located
      (setSearchAllParameters (Bounds.around 0 s) s) = some found := by
  let t := setSearchAllParameters (Bounds.around 0 s) s
  let behind : Part := { s.whole s.shown with fromPos := s.document.dot }
  let ring := (others s.ringCurrent s.buffers).map
    (fun b => s.whole (.buffer b))
  -- the sequence without the range up to the dot
  have hprefix : exists hits, locate regexps re s.documents
      (behind :: ring) = .ok hits := by
    have hcircle : s.circle = (behind :: ring) ++
        [{ s.whole s.shown with toPos := s.document.dot }] := rfl
    rw [hcircle] at hlocated
    rcases locate_append regexps hlocated with ⟨hits, _, hhits, _⟩
    exact ⟨hits, hhits⟩
  rcases hprefix with ⟨hits, hhits⟩
  rcases except_bind_ok hhits with ⟨first, hfirst, hothers⟩
  rcases except_bind_ok hothers with ⟨later, hlater, hpure⟩
  cases hpure
  rcases except_bind_ok hfirst with ⟨matched, hall, hlength⟩
  have hlength : first.length = matched.length := by
    cases hlength
    exact List.length_map ..
  rcases except_bind_ok ho with ⟨result, hfind, hrest⟩
  have hresult : result = (-(matched.length : Int), none) := by
    have hsubject : t.subject = s.shown := subject_current rfl
    have hzero : findMatch regexps re
        (((s.documents behind.view).text.take behind.toPos).drop
          behind.fromPos) 0 = .ok (-(matched.length : Int), none) := by
      unfold findMatch
      rw [if_pos (Int.le_refl 0), forwards_nonpos hall (Int.le_refl 0),
        Int.zero_sub]
    have hfind' : findHit regexps re (s.documents behind.view).text
        behind.fromPos behind.toPos 0 = .ok result := by
      change findHit regexps re (s.documents t.subject).text _ _ 0 = _ at hfind
      rw [hsubject] at hfind
      exact hfind
    unfold findHit at hfind'
    rw [hzero] at hfind'
    exact (Except.ok.inj hfind').symm
  subst hresult
  by_cases hnone : matched.length = 0
  · apply Or.inl
    rw [hnone] at hrest
    cases hrest
    rfl
  · apply Or.inr
    have hneg : -(matched.length : Int) < 0 := by omega
    rw [if_neg (by dsimp only; omega)] at hrest
    have hparts : t.ringParts (-(matched.length : Int)) =
        (behind :: ring).reverse := by
      have hcurrent : (setSearchAllParameters (Bounds.around 0 s) s).ringParts
          (-(matched.length : Int)) = _ :=
        ringParts_current hplain rfl rfl (-(matched.length : Int))
      rw [if_neg (by omega), if_neg (by omega)] at hcurrent
      rw [List.reverse_cons, ← List.map_reverse]
      exact hcurrent
    have hloop : (ringOutcome regexps re t (-(matched.length : Int))).map
        (Outcome.located t) = _ := ringOutcome_parts regexps (by omega)
    rw [show ringOutcome regexps re t _ = .ok o from hrest, hparts] at hloop
    cases hsearch : searchParts regexps re t.documents
        (behind :: ring).reverse (-(matched.length : Int)) with
    | error err =>
        rw [hsearch] at hloop
        cases hloop
    | ok result =>
        rw [hsearch] at hloop
        have hpick := searchParts_backwards_ok regexps
          (by rw [List.reverse_reverse]; exact hhits) hneg hsearch
        have hlong : -(-(matched.length : Int)) ≤
            ((first ++ later).length : Int) := by
          rw [List.length_append]
          omega
        have hsome := (pick_zero_iff (by omega) (first ++ later)).mp
          (congrArg Prod.fst (pick_neg hneg hlong))
        rw [← hpick, ← Except.ok.inj hloop] at hsome
        exact Option.isSome_iff_exists.mp hsome

/-!
## The command with a count
-/

theorem Kept.of_untracked {t u : Editor} (h : t.untracked = u.untracked) :
    Kept t u :=
  { success := by
      have hcongr := congrArg Editor.searchState h
      exact hcongr.symm
    shown := by
      have hcongr := congrArg Editor.shown h
      exact hcongr.symm
    ringCurrent := by
      have hcongr := congrArg Editor.ringCurrent h
      exact hcongr.symm
    document := (document_untracked h).symm }

theorem Kept.trans {t u v : Editor} (h : Kept t u) (h' : Kept u v) :
    Kept t v :=
  { success := h'.success.trans h.success
    shown := h'.shown.trans h.shown
    ringCurrent := h'.ringCurrent.trans h.ringCurrent
    document := h'.document.trans h.document }

/-- The number is positive or negative, and it selects what its count
selects. -/
theorem selectsAround_pick {n : Int} {located : List Located} {t : Editor}
    (hfound : forall found, (pick n located).2 = some found ->
      Selected found s t)
    (hmissed : (pick n located).2 = none -> Missed s t) :
    SelectsAround n located s t := by
  constructor
  · intro hpos found hget
    have hle : n.natAbs - 1 < located.length := by
      by_contra hlong
      rw [List.getElem?_eq_none (by omega)] at hget
      cases hget
    apply hfound
    rw [pick_pos hpos (by omega)]
    exact hget
  · intro hneg hle found hget
    apply hfound
    rw [pick_neg hneg (by omega)]
    exact hget
  · intro hshort
    apply hmissed
    rw [pick_short hshort]

/-- The command ends in what the outcome of the search around the ring leads
to. -/
theorem searchAll_around {re : Re} {str : Bytes} {n : TecoInt}
    (modifierColon : Nat) (hplain : s.EditsBuffer)
    (hvalid : validatePattern regexps (searchString str s) = .ok ())
    (hcompile : regexps.compile (searchString str s) = .ok (some re)) :
    runUntracked (searchAll sci regexps (.one n) [] str modifierColon) s =
      (regexpOutcome regexps re
        (setSearchAllParameters (Bounds.around (gint n) s) s)).map (fun o =>
          ((), (finishSearch str modifierColon (play sci o
            (setSearchAllParameters
              (Bounds.around (gint n) s) s))).untracked)) := by
  rw [searchAll_run, searchAllBounds_around hplain]
  change (outcome regexps (searchString str s)
    (setSearchAllParameters (Bounds.around (gint n) s) s) >>= _) = _
  have houtcome : outcome regexps (searchString str s)
      (setSearchAllParameters (Bounds.around (gint n) s) s) =
      regexpOutcome regexps re
        (setSearchAllParameters (Bounds.around (gint n) s) s) := by
    unfold outcome
    rw [hvalid, hcompile]
    rfl
  rw [houtcome]
  cases regexpOutcome regexps re
    (setSearchAllParameters (Bounds.around (gint n) s) s) <;> rfl

theorem ok_of_runUntracked {m : Command Unit} {u : Editor}
    (h : runUntracked m s = .ok ((), u)) :
    exists t, m s = .ok () t ∧ t.untracked = u := by
  unfold runUntracked at h
  cases hrun : m s with
  | ok a t =>
      rw [hrun] at h
      cases h
      exact ⟨t, rfl, rfl⟩
  | error err t =>
      rw [hrun] at h
      cases h

/-- The buffer that is shown after a search around the ring. -/
theorem play_shown (hplain : s.EditsBuffer) {located : List Located}
    (hlocated : (pick count located).2 = none -> o = .ring s.ringCurrent none)
    (ho : o.located (setSearchAllParameters (Bounds.around count s) s) =
      (pick count located).2) :
    exists buffer, (play sci o (setSearchAllParameters
      (Bounds.around count s) s)).shown = .buffer buffer := by
  cases hpick : (pick count located).2 with
  | none =>
      rw [hlocated hpick]
      exists s.ringCurrent
  | some found =>
      rw [hpick] at ho
      have hselected := play_selected sci hplain ho
      exact ⟨_, hselected.shown.trans hselected.ringCurrent⟩

variable {re : Re} {str : Bytes} {n : TecoInt} {located : List Located}

/-- The command succeeds and selects the match for its number. -/
def SearchesAround (str : Bytes) (modifierColon : Nat) (n : TecoInt)
    (located : List Located) (s : Editor) : Prop :=
  exists t, searchAll sci regexps (.one n) [] str modifierColon s = .ok () t ∧
    SelectsAround n.toInt located s t

theorem searchesAround_of_countable (modifierColon : Nat)
    (hplain : s.EditsBuffer)
    (hvalid : validatePattern regexps (searchString str s) = .ok ())
    (hcompile : regexps.compile (searchString str s) = .ok (some re))
    (hmemory : forall number number', number ≤ number' ->
      regexps.memoryCheck number' = .ok () ->
        regexps.memoryCheck number = .ok ())
    (hlocated : locate regexps re s.documents s.circle = .ok located)
    (h : CountableAround regexps n located) :
    SearchesAround sci regexps str modifierColon n located s := by
  rcases h with ⟨hzero, hcount, hcheck⟩
  rcases regexpOutcome_around regexps hplain hlocated hzero
    (fun hneg number hle => hmemory number _ hle (hcheck hneg)) with
      ⟨o, hrun, ho, hnone⟩
  have hcommand := searchAll_around sci regexps modifierColon hplain hvalid
    hcompile (n := n)
  rw [hrun] at hcommand
  rcases ok_of_runUntracked hcommand with ⟨t, ht, hsame⟩
  rcases play_shown sci hplain hnone ho with ⟨buffer, hshown⟩
  have hkept := (finishSearch_kept str modifierColon hshown).trans
    (Kept.of_untracked hsame.symm)
  refine ⟨t, ht, ?_⟩
  have hselects : SelectsAround (gint n) located s t := by
    apply selectsAround_pick
    · intro found hfound
      rw [hfound] at ho
      exact (play_selected sci hplain ho).kept hkept
    · intro hmissed
      have hring := hnone hmissed
      subst hring
      exact (play_missed sci hplain).kept hkept
  cases hcount with
  | inl heq =>
      rw [heq] at hselects
      exact hselects
  | inr hshort =>
      -- a count that is greater than the number of matches may be another one
      rcases gint_spec n with ⟨hlow, hhigh, k, hk⟩
      have hmissed := hselects.missed hshort
      by_cases heq : gint n = n.toInt
      · rw [heq] at hselects
        exact hselects
      · have hlong : located.length < n.toInt.natAbs := by
          have hk0 : k ≠ 0 := by
            intro hk0
            rw [hk0] at hk
            omega
          omega
        constructor
        · intro hpos found hget
          rw [List.getElem?_eq_none (by omega)] at hget
          cases hget
        · intro hneg hle
          omega
        · exact fun _ => hmissed

theorem countable_of_searchesAround (modifierColon : Nat)
    (hplain : s.EditsBuffer)
    (hvalid : validatePattern regexps (searchString str s) = .ok ())
    (hcompile : regexps.compile (searchString str s) = .ok (some re))
    (hmemory : forall number number', number ≤ number' ->
      regexps.memoryCheck number' = .ok () ->
        regexps.memoryCheck number = .ok ())
    (hlocated : locate regexps re s.documents s.circle = .ok located)
    (hn : n.toInt ≠ 0) (hfew : located.length < 2147483648)
    (h : SearchesAround sci regexps str modifierColon n located s) :
    CountableAround regexps n located := by
  rcases h with ⟨t, ht, hselects⟩
  rcases gint_spec n with ⟨hlow, hhigh, k, hk⟩
  have hcommand := searchAll_around sci regexps modifierColon hplain hvalid
    hcompile (n := n)
  have hok : runUntracked
      (searchAll sci regexps (.one n) [] str modifierColon) s =
        .ok ((), t.untracked) := by
    unfold runUntracked
    rw [ht]
  rw [hok] at hcommand
  cases hrun : regexpOutcome regexps re
      (setSearchAllParameters (Bounds.around (gint n) s) s) with
  | error err =>
      rw [hrun] at hcommand
      cases hcommand
  | ok o =>
      rw [hrun] at hcommand
      have hsame := congrArg Prod.snd (Except.ok.inj hcommand)
      dsimp only at hsame
      have hmissed : gint n ≠ n.toInt -> Missed s t := by
        intro hne
        have hk0 : k ≠ 0 := by
          intro hk0
          rw [hk0] at hk
          omega
        exact hselects.missed (by omega)
      have hnot : forall found, o.located (setSearchAllParameters
          (Bounds.around (gint n) s) s) = some found ->
            gint n = n.toInt := by
        intro found hfound
        by_contra hne
        have hselected := play_selected sci hplain hfound
        have hkept := (finishSearch_kept str modifierColon
          (hselected.shown.trans hselected.ringCurrent)).trans
            (Kept.of_untracked hsame.symm)
        have hsuccess := (hselected.kept hkept).success
        rw [(hmissed hne).failure] at hsuccess
        cases hsuccess
      have hzero : gint n ≠ 0 := by
        intro hzero
        rw [hzero] at hrun hnot hsame
        rcases regexpOutcome_zero regexps hplain hlocated hrun with
          rfl | ⟨found, hfound⟩
        · have hsubject : (setSearchAllParameters
              (Bounds.around 0 s) s).subject = s.shown := subject_current rfl
          have hshown : (play sci .kept (setSearchAllParameters
              (Bounds.around 0 s) s)).shown = .buffer s.ringCurrent :=
            hsubject.trans hplain.shown
          have hkept := (finishSearch_kept str modifierColon hshown).trans
            (Kept.of_untracked hsame.symm)
          have hfailure := (hmissed (by omega)).failure
          rw [hkept.success] at hfailure
          cases hfailure
        · have heq := hnot found hfound
          omega
      have hcheck : gint n < 0 ->
          regexps.memoryCheck (gint n).natAbs = .ok () := by
        intro hneg
        rcases except_bind_ok hrun with ⟨result, hfind, _⟩
        exact findHit_memory regexps hfind hneg
      refine ⟨hzero, ?_, hcheck⟩
      by_cases hshort : located.length < (gint n).natAbs
      · exact Or.inr hshort
      · apply Or.inl
        rcases regexpOutcome_around regexps hplain hlocated hzero
          (fun hneg number hle => hmemory number _ hle (hcheck hneg)) with
            ⟨o', hrun', ho, _⟩
        rw [hrun] at hrun'
        cases hrun'
        have hsome : ((pick (gint n) located).2).isSome = true := by
          apply (pick_zero_iff hzero located).mp
          unfold pick
          rw [if_neg hshort]
        rw [← ho] at hsome
        rcases Option.isSome_iff_exists.mp hsome with ⟨found, hfound⟩
        exact hnot found hfound

/-- A number other than 0 selects its match around the ring exactly if it is
countable.  The other direction is about fewer than 2^31 matches. -/
theorem searchAll_selects_around (modifierColon : Nat)
    (hplain : s.EditsBuffer)
    (hvalid : validatePattern regexps (searchString str s) = .ok ())
    (hcompile : regexps.compile (searchString str s) = .ok (some re))
    (hmemory : forall number number', number ≤ number' ->
      regexps.memoryCheck number' = .ok () ->
        regexps.memoryCheck number = .ok ())
    (hlocated : locate regexps re s.documents s.circle = .ok located)
    (hn : n.toInt ≠ 0) :
    (CountableAround regexps n located ->
      SearchesAround sci regexps str modifierColon n located s) ∧
    (located.length < 2147483648 ->
      SearchesAround sci regexps str modifierColon n located s ->
        CountableAround regexps n located) := by
  constructor
  · intro hcountable
    exact searchesAround_of_countable sci regexps modifierColon hplain hvalid
      hcompile hmemory hlocated hcountable
  · intro hfew hsearches
    exact countable_of_searchesAround sci regexps modifierColon hplain hvalid
      hcompile hmemory hlocated hn hfew hsearches

end

/-!
## Two buffers
-/

/-- The matches of a character around the ring of two buffers. -/
def aroundTwoBuffers : List Located :=
  [{ view := .buffer 0
     hit := { offset := 2, found := { whole := (0, 1), groups := [] } } },
    { view := .buffer 1
      hit := { offset := 0, found := { whole := (2, 3), groups := [] } } }]

theorem twoBuffers_editsBuffer : twoBuffers.EditsBuffer :=
  { qregCurrent := rfl
    shown := rfl
    current_mem := by decide
    nodup := by decide }

/-- The second match is in the next buffer. -/
theorem searchAll_selects_around_second :
    SearchesAround singleLine literalRegexps (utf8 "c") 0 2 aroundTwoBuffers
      twoBuffers := by
  have hlocated : locate literalRegexps (utf8 "c") twoBuffers.documents
      twoBuffers.circle = .ok aroundTwoBuffers := rfl
  apply (searchAll_selects_around singleLine literalRegexps 0
    twoBuffers_editsBuffer rfl rfl (fun _ _ _ _ => rfl) hlocated
    (by decide)).1
  exact ⟨by decide, Or.inl (by decide), fun _ => rfl⟩

/-- The number 2^32 + 1 is the count 1, so that a match is selected although
there are not enough matches. -/
theorem searchAll_count_wraps :
    locate literalRegexps (utf8 "c") twoBuffers.documents twoBuffers.circle =
        .ok aroundTwoBuffers ∧
      ¬ SearchesAround singleLine literalRegexps (utf8 "c") 0 4294967297
        aroundTwoBuffers twoBuffers := by
  constructor
  · rfl
  · intro hsearches
    have hcountable := countable_of_searchesAround singleLine literalRegexps 0
      twoBuffers_editsBuffer rfl rfl (fun _ _ _ _ => rfl)
      rfl (by decide) (by decide) hsearches
    exact absurd hcountable.2.1 (by decide)

end Editing
end SciTECO
