import SciTECO.Editing.CountedSearch

/-!
# The ranges of a search

A search goes through ranges of documents until its count is reached.  The
matches in all these ranges make up one sequence, in which the count is an
index.
-/

namespace SciTECO
namespace Editing

open EStateM Editor SignedIndex

/-- A range of a document. -/
structure Part where
  view : View
  fromPos : Nat
  toPos : Nat
deriving DecidableEq, Repr

/-- A match and its document. -/
structure Located where
  view : View
  hit : Hit
deriving DecidableEq, Repr

/-- The buffers up to `to_buffer`. -/
def upTo (toBuffer : Nat) : List Nat -> List Nat
  | [] => []
  | buffer :: rest =>
      if buffer = toBuffer then [buffer] else buffer :: upTo toBuffer rest

namespace Editor

/-- The whole text of a document. -/
def whole (s : Editor) (view : View) : Part :=
  { view := view, fromPos := 0, toPos := (s.documents view).text.length }

/-- The range of a buffer in the loop over the ring. -/
def ringPart (s : Editor) (count : Int) (toBuffer buffer : Nat) : Part :=
  if buffer = toBuffer then
    if 0 < count then
      { s.whole (.buffer buffer) with toPos := s.searchParameters.dot }
    else { s.whole (.buffer buffer) with fromPos := s.searchParameters.dot }
  else s.whole (.buffer buffer)

/-- The ranges of the loop over the ring. -/
def ringParts (s : Editor) (count : Int) : List Part :=
  match s.searchParameters.fromBuffer, s.searchParameters.toBuffer with
  | some fromBuffer, some toBuffer =>
      let ring := if 0 < count then s.buffers else s.buffers.reverse
      (upTo toBuffer (following fromBuffer ring)).map
        (s.ringPart count toBuffer)
  | _, _ => []

theorem ringParts_of_buffers {s : Editor} {fromBuffer toBuffer : Nat}
    (hfrom : s.searchParameters.fromBuffer = some fromBuffer)
    (hto : s.searchParameters.toBuffer = some toBuffer) (count : Int) :
    s.ringParts count =
      (upTo toBuffer (following fromBuffer
        (if 0 < count then s.buffers else s.buffers.reverse))).map
          (s.ringPart count toBuffer) := by
  unfold ringParts
  rw [hfrom, hto]

/-- The ranges of a search with the current parameters. -/
def parts (s : Editor) : List Part :=
  { view := s.subject, fromPos := s.searchParameters.fromPos.toNat
    toPos := s.searchParameters.toPos.toNat } ::
      s.ringParts s.searchParameters.count

end Editor

/-- The match of an outcome. -/
def Outcome.located (s : Editor) : Outcome -> Option Located
  | .found hit => some { view := s.subject, hit := hit }
  | .ring buffer (some hit) => some { view := .buffer buffer, hit := hit }
  | _ => none

section

variable {Re : Type} (regexps : Regexps Re)

/-- The matches in a range of a document. -/
def partHits (re : Re) (documents : View -> Document) (part : Part) :
    Except TecoError (List Located) := do
  let hits <- (regexps.matchFull re
    (((documents part.view).text.take part.toPos).drop part.fromPos)).all
  pure (hits.map (fun hit =>
    { view := part.view, hit := { offset := part.fromPos, found := hit } }))

/-- The matches in some ranges, one range after the other. -/
def locate (re : Re) (documents : View -> Document) :
    List Part -> Except TecoError (List Located)
  | [] => .ok []
  | part :: rest => do
      let hits <- partHits regexps re documents part
      let others <- locate re documents rest
      pure (hits ++ others)

/-- A search through ranges, which leaves the rest of the count. -/
def searchParts (re : Re) (documents : View -> Document) :
    List Part -> Int -> Except TecoError (Int × Option Located)
  | [], count => .ok (count, none)
  | part :: rest, count => do
      let result <- findHit regexps re (documents part.view).text
        part.fromPos part.toPos count
      if result.1 = 0 then pure (0, result.2.map (Located.mk part.view))
      else searchParts re documents rest result.1

/-!
## The loop over the ring goes through its ranges
-/

omit regexps in
theorem forwards_sign {found : Matches} {count result : Int}
    {hit : Option Match} (hcount : 0 < count)
    (h : found.forwards count = .ok (result, hit)) (hresult : result ≠ 0) :
    0 < result := by
  induction found generalizing count with
  | failed err => cases h
  | done =>
      cases h
      exact hcount
  | found head next ih =>
      unfold Matches.forwards at h
      split at h
      · cases h
        exact absurd rfl hresult
      · exact ih (by omega) h

omit regexps in
theorem backwards_sign {found : Matches} {count result : Int}
    {hit : Option Match} (hcount : count < 0)
    (h : found.backwards count = .ok (result, hit)) (hresult : result ≠ 0) :
    result < 0 := by
  rcases except_bind_ok h with ⟨hits, _, hpure⟩
  dsimp only at hpure
  split at hpure
  · cases hpure
    exact absurd rfl hresult
  · cases hpure
    omega

/-- The direction of a search does not change. -/
theorem findHit_sign {re : Re} {text : Bytes} {fromPos toPos : Nat}
    {count result : Int} {hit : Option Hit} (hcount : count ≠ 0)
    (h : findHit regexps re text fromPos toPos count = .ok (result, hit))
    (hresult : result ≠ 0) : 0 < result <-> 0 < count := by
  rcases except_bind_ok h with ⟨pair, hpair, hpure⟩
  cases hpure
  unfold findMatch at hpair
  split at hpair
  · have hsign := forwards_sign (by omega) hpair hresult
    omega
  · rcases except_bind_ok hpair with ⟨_, _, hfound⟩
    have hsign := backwards_sign (by omega) hfound hresult
    omega

theorem searchParts_singleton {re : Re} {documents : View -> Document}
    {part : Part} {count : Int} :
    searchParts regexps re documents [part] count =
      (findHit regexps re (documents part.view).text part.fromPos part.toPos
        count).map (fun result =>
          (result.1, result.2.map (Located.mk part.view))) := by
  unfold searchParts
  cases hfind : findHit regexps re (documents part.view).text part.fromPos
      part.toPos count with
  | error err => rfl
  | ok result =>
      change (if result.1 = 0 then _ else _) = _
      by_cases hzero : result.1 = 0
      · rw [if_pos hzero]
        change Except.ok (0, _) = Except.ok (result.1, _)
        rw [hzero]
      · rw [if_neg hzero]
        have hnone := findHit_rest regexps hfind hzero
        change Except.ok (result.1, none) = Except.ok (result.1, _)
        rw [hnone]
        rfl

/-- The loop over the ring is a search through ranges, where the direction is
the one of the whole search. -/
theorem findInRing_parts {re : Re} {s : Editor} {toBuffer : Nat}
    {direction : Int} {ring : List Nat} {last : Nat} {count : Int}
    (hcount : count ≠ 0) (hdirection : 0 < direction <-> 0 < count) :
    (findInRing regexps re
        (fun buffer => (s.documents (.buffer buffer)).text)
        s.searchParameters.dot toBuffer ring last count).map
          (fun result =>
            (result.1, result.2.2.map (Located.mk (.buffer result.2.1)))) =
      searchParts regexps re s.documents
        ((upTo toBuffer ring).map (s.ringPart direction toBuffer))
        count := by
  induction ring generalizing last count with
  | nil => rfl
  | cons buffer rest ih =>
      unfold findInRing upTo
      by_cases hto : buffer = toBuffer
      · rw [if_pos hto, if_pos hto]
        have hpart : findToBuffer regexps re
            (s.documents (.buffer buffer)).text s.searchParameters.dot count =
            findHit regexps re
              (s.documents (s.ringPart direction toBuffer buffer).view).text
              (s.ringPart direction toBuffer buffer).fromPos
              (s.ringPart direction toBuffer buffer).toPos count := by
          unfold findToBuffer ringPart
          rw [if_pos hto]
          by_cases hpos : 0 < count
          · rw [if_pos hpos, if_pos (hdirection.mpr hpos)]
            rfl
          · rw [if_neg hpos, if_neg (fun h => hpos (hdirection.mp h))]
            rfl
        have hview : (s.ringPart direction toBuffer buffer).view =
            .buffer buffer := by
          unfold ringPart
          rw [if_pos hto]
          split <;> rfl
        rw [List.map_singleton, searchParts_singleton, hpart, hview]
        cases findHit regexps re (s.documents (.buffer buffer)).text
          (s.ringPart direction toBuffer buffer).fromPos
          (s.ringPart direction toBuffer buffer).toPos count <;> rfl
      · rw [if_neg hto, if_neg hto]
        have hpart : s.ringPart direction toBuffer buffer =
            s.whole (.buffer buffer) := if_neg hto
        rw [List.map_cons, hpart]
        unfold searchParts
        dsimp only [Editor.whole]
        cases hfind : findHit regexps re (s.documents (.buffer buffer)).text 0
            (s.documents (.buffer buffer)).text.length count with
        | error err => rfl
        | ok result =>
            change Except.map _ (if result.1 = 0 then _ else _) =
              (if result.1 = 0 then _ else _)
            by_cases hzero : result.1 = 0
            · rw [if_pos hzero, if_pos hzero]
              change Except.ok (result.1, _) = Except.ok (0, _)
              rw [hzero]
            · rw [if_neg hzero, if_neg hzero]
              have hsign := findHit_sign regexps hcount hfind hzero
              exact ih hzero (hdirection.trans hsign.symm)

/-- Without a match the loop ends in `to_buffer`. -/
theorem findInRing_missed {re : Re} {texts : Nat -> Bytes}
    {dot toBuffer : Nat} {ring : List Nat} {last : Nat} {count : Int}
    {result : Int × Nat × Option Hit} (hcount : count ≠ 0)
    (hto : toBuffer ∈ ring)
    (h : findInRing regexps re texts dot toBuffer ring last count =
      .ok result) (hnone : result.2.2 = none) : result.2.1 = toBuffer := by
  induction ring generalizing last count with
  | nil => cases hto
  | cons buffer rest ih =>
      unfold findInRing at h
      by_cases hhere : buffer = toBuffer
      · rw [if_pos hhere] at h
        rcases except_bind_ok h with ⟨pair, _, hpure⟩
        cases hpure
        exact hhere
      · rw [if_neg hhere] at h
        rcases except_bind_ok h with ⟨pair, hpair, hpure⟩
        by_cases hzero : pair.1 = 0
        · rw [if_pos hzero] at hpure
          cases hpure
          have hfound := (findHit_zero regexps hcount hpair).mp hzero
          rw [show pair.2 = none from hnone] at hfound
          cases hfound
        · rw [if_neg hzero] at hpure
          have hrest : toBuffer ∈ rest := by
            cases hto with
            | head => exact absurd rfl hhere
            | tail _ hrest => exact hrest
          exact ih hzero hrest hpure

omit regexps in
theorem ringParts_sign {s : Editor} {count count' : Int}
    (h : 0 < count <-> 0 < count') :
    s.ringParts count = s.ringParts count' := by
  unfold ringParts ringPart
  by_cases hpos : 0 < count
  · simp only [hpos, h.mp hpos]
  · have hneg : ¬ 0 < count' := fun hpos' => hpos (h.mpr hpos')
    simp only [hpos, hneg]

/-- What the loop over the ring finds is what the search through its ranges
finds. -/
theorem ringOutcome_parts {re : Re} {s : Editor} {count : Int}
    (hcount : count ≠ 0) :
    (ringOutcome regexps re s count).map (Outcome.located s) =
      (searchParts regexps re s.documents (s.ringParts count) count).map
        Prod.snd := by
  unfold ringOutcome ringParts
  cases s.searchParameters.fromBuffer with
  | none => rfl
  | some fromBuffer =>
      cases s.searchParameters.toBuffer with
      | none => rfl
      | some toBuffer =>
          dsimp only
          rw [← findInRing_parts regexps hcount Iff.rfl]
          cases findInRing regexps re
              (fun buffer => (s.documents (.buffer buffer)).text)
              s.searchParameters.dot toBuffer
              (following fromBuffer
                (if 0 < count then s.buffers else s.buffers.reverse))
              fromBuffer count with
          | error err => rfl
          | ok found =>
              rcases found with ⟨rest, last, hit⟩
              cases hit <;> rfl

/-- What a search finds is what the search through its ranges finds. -/
theorem regexpOutcome_parts {re : Re} {s : Editor}
    (hcount : s.searchParameters.count ≠ 0) :
    (regexpOutcome regexps re s).map (Outcome.located s) =
      (searchParts regexps re s.documents s.parts
        s.searchParameters.count).map Prod.snd := by
  unfold regexpOutcome parts searchParts
  dsimp only
  cases hfind : findHit regexps re (s.documents s.subject).text
      s.searchParameters.fromPos.toNat s.searchParameters.toPos.toNat
      s.searchParameters.count with
  | error err => rfl
  | ok result =>
      change Except.map _ (if result.1 = 0 then _ else _) =
        Except.map _ (if result.1 = 0 then _ else _)
      by_cases hzero : result.1 = 0
      · rw [if_pos hzero, if_pos hzero]
        rcases result with ⟨rest, hit⟩
        cases hit <;> rfl
      · rw [if_neg hzero, if_neg hzero]
        have hsign := findHit_sign regexps hcount hfind hzero
        rw [ringOutcome_parts regexps hzero, ringParts_sign hsign]

/-!
## Searching is picking a match from the sequence
-/

theorem findHit_pick {re : Re} {documents : View -> Document} {part : Part}
    {located : List Located}
    (h : partHits regexps re documents part = .ok located) {count : Int}
    (hcount : count ≠ 0)
    (hmemory : count < 0 -> regexps.memoryCheck count.natAbs = .ok ()) :
    exists hit, findHit regexps re (documents part.view).text part.fromPos
        part.toPos count = .ok ((pick count located).1, hit) ∧
      hit.map (Located.mk part.view) = (pick count located).2 := by
  rcases except_bind_ok h with ⟨hits, hall, hlocated⟩
  cases hlocated
  have hfind := findMatch_eq regexps hall hcount hmemory
  unfold findHit
  rw [hfind, pick_map]
  refine ⟨_, rfl, ?_⟩
  rw [Option.map_map]
  rfl

theorem searchParts_cons {re : Re} {documents : View -> Document}
    {part : Part} {rest : List Part} {located : List Located}
    (h : partHits regexps re documents part = .ok located) {count : Int}
    (hcount : count ≠ 0)
    (hmemory : count < 0 -> regexps.memoryCheck count.natAbs = .ok ()) :
    searchParts regexps re documents (part :: rest) count =
      if (pick count located).1 = 0 then .ok (pick count located)
      else searchParts regexps re documents rest (pick count located).1 := by
  rcases findHit_pick regexps h hcount hmemory with ⟨hit, hfind, hhit⟩
  change (findHit regexps re _ _ _ count >>= _) = _
  rw [hfind]
  change (if (pick count located).1 = 0 then _ else _) = _
  by_cases hzero : (pick count located).1 = 0
  · rw [if_pos hzero, if_pos hzero, hhit]
    change Except.ok (0, _) = Except.ok (pick count located)
    rw [← hzero]
  · rw [if_neg hzero, if_neg hzero]

/-- Searching forwards picks a match from the sequence of matches. -/
theorem searchParts_forwards {re : Re} {documents : View -> Document}
    {parts : List Part} {located : List Located}
    (h : locate regexps re documents parts = .ok located) {count : Int}
    (hcount : 0 < count) :
    searchParts regexps re documents parts count =
      .ok (pick count located) := by
  induction parts generalizing located count with
  | nil =>
      cases h
      rw [pick_nil (by omega)]
      rfl
  | cons part rest ih =>
      rcases except_bind_ok h with ⟨hits, hhits, hothers⟩
      rcases except_bind_ok hothers with ⟨others, hrest, hpure⟩
      cases hpure
      rw [searchParts_cons regexps hhits (by omega) (fun h => by omega),
        pick_append_pos hcount]
      by_cases hzero : (pick count hits).1 = 0
      · rw [if_pos hzero, if_pos hzero]
      · rw [if_neg hzero, if_neg hzero]
        have hsign := pick_rest_pos hcount hzero
        exact ih hrest (by omega)

theorem locate_append {re : Re} {documents : View -> Document}
    {parts parts' : List Part} {located : List Located}
    (h : locate regexps re documents (parts ++ parts') = .ok located) :
    exists hits hits', locate regexps re documents parts = .ok hits ∧
      locate regexps re documents parts' = .ok hits' ∧
        located = hits ++ hits' := by
  induction parts generalizing located with
  | nil => exact ⟨[], located, rfl, h, rfl⟩
  | cons part rest ih =>
      rcases except_bind_ok h with ⟨hits, hhits, hothers⟩
      rcases except_bind_ok hothers with ⟨others, hrest, hpure⟩
      cases hpure
      rcases ih hrest with ⟨first, second, hfirst, hsecond, rfl⟩
      refine ⟨hits ++ first, second, ?_, hsecond, ?_⟩
      · change (partHits regexps re documents part >>= _) = _
        rw [hhits]
        change (locate regexps re documents rest >>= _) = _
        rw [hfirst]
        rfl
      · rw [List.append_assoc]

/-- Searching backwards goes through the ranges in their reverse order, and it
picks from the same sequence. -/
theorem searchParts_backwards {re : Re} {documents : View -> Document}
    {parts : List Part} {located : List Located}
    (h : locate regexps re documents parts.reverse = .ok located)
    {count : Int} (hcount : count < 0)
    (hmemory : forall number, number ≤ count.natAbs ->
      regexps.memoryCheck number = .ok ()) :
    searchParts regexps re documents parts count =
      .ok (pick count located) := by
  induction parts generalizing located count with
  | nil =>
      cases h
      rw [pick_nil (by omega)]
      rfl
  | cons part rest ih =>
      rw [List.reverse_cons] at h
      rcases locate_append regexps h with ⟨others, hits, hothers, hpart, rfl⟩
      rcases except_bind_ok hpart with ⟨hits', hhits, hnil⟩
      cases hnil
      rw [List.append_nil, searchParts_cons regexps hhits (by omega)
        (fun _ => hmemory _ (Nat.le_refl _)), pick_append_neg hcount]
      by_cases hzero : (pick count hits').1 = 0
      · rw [if_pos hzero, if_pos hzero]
      · rw [if_neg hzero, if_neg hzero]
        have hrest := pick_rest_neg hcount hzero
        exact ih hothers (by omega)
          (fun number hle => hmemory number (by omega))

/-- A search that succeeds has had the memory for its matches. -/
theorem findHit_memory {re : Re} {text : Bytes} {fromPos toPos : Nat}
    {count : Int} {result : Int × Option Hit}
    (h : findHit regexps re text fromPos toPos count = .ok result)
    (hcount : count < 0) : regexps.memoryCheck count.natAbs = .ok () := by
  rcases except_bind_ok h with ⟨pair, hpair, _⟩
  unfold findMatch at hpair
  rw [if_neg (by omega)] at hpair
  rcases except_bind_ok hpair with ⟨_, hmemory, _⟩
  exact hmemory

/-- Searching backwards picks from the sequence if there is enough memory. -/
theorem searchParts_backwards_ok {re : Re} {documents : View -> Document}
    {parts : List Part} {located : List Located}
    (h : locate regexps re documents parts.reverse = .ok located)
    {count : Int} (hcount : count < 0) {result : Int × Option Located}
    (hresult : searchParts regexps re documents parts count = .ok result) :
    result = pick count located := by
  induction parts generalizing located count with
  | nil =>
      cases h
      cases hresult
      rw [pick_nil (by omega)]
  | cons part rest ih =>
      rw [List.reverse_cons] at h
      rcases locate_append regexps h with ⟨others, hits, hothers, hpart, rfl⟩
      rcases except_bind_ok hpart with ⟨hits', hhits, hnil⟩
      cases hnil
      rcases except_bind_ok hresult with ⟨found, hfound, _⟩
      rw [searchParts_cons regexps hhits (by omega)
        (findHit_memory regexps hfound)] at hresult
      rw [List.append_nil, pick_append_neg hcount]
      by_cases hzero : (pick count hits').1 = 0
      · rw [if_pos hzero] at hresult ⊢
        exact (Except.ok.inj hresult).symm
      · rw [if_neg hzero] at hresult ⊢
        have hrest := pick_rest_neg hcount hzero
        exact ih hothers (by omega) hresult

end

end Editing
end SciTECO
