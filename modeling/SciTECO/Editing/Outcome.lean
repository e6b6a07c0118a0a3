import SciTECO.Editing.Search

/-!
# Outcomes of searches

What a search finds is a function of the texts, and what it does with it is a
function of the outcome.  This module separates the two, without undo tokens.
-/

namespace SciTECO
namespace Editing

open EStateM

/-- A match and where the text begins in which it was found. -/
structure Hit where
  offset : Nat
  found : Match
deriving DecidableEq, Repr

/-- The outcome of a search. -/
inductive Outcome where
  /-- There is no regular expression for the pattern. -/
  | invalid
  /-- The count was 0 and there is no match. -/
  | kept
  | found (hit : Hit)
  | missed
  /-- The search has gone on in other buffers up to this one. -/
  | ring (buffer : Nat) (hit : Option Hit)
deriving DecidableEq, Repr

namespace Editor

/-- The state without undo tokens. -/
def untracked (s : Editor) : Editor := { s with tokens := [] }

/-- Select a match. -/
def select (sci : Scintilla) (hit : Hit) (s : Editor) : Editor :=
  let ranges := getRanges hit.offset hit.found
  let u := s.ssm (Document.setSel
    (hit.offset + (max hit.found.whole.1 0).toNat)
    (hit.offset + (max hit.found.whole.2 0).toNat))
  { u with
    ranges := ranges.map (fun range =>
      (sci.bytes2glyphs u.document range.1,
        sci.bytes2glyphs u.document range.2)) }

def selectOption (sci : Scintilla) : Option Hit -> Editor -> Editor
  | some hit, s => select sci hit s
  | none, s => s

/-- What is searched first. -/
def subject (s : Editor) : View :=
  match s.searchParameters.fromBuffer with
  | some buffer =>
      if s.qregCurrent = none ∧ s.ringCurrent ≠ buffer then .buffer buffer
      else s.shown
  | none => s.shown

theorem subject_of_fromBuffer {s : Editor} {buffer : Nat}
    (h : s.searchParameters.fromBuffer = some buffer) :
    s.subject = if s.qregCurrent = none ∧ s.ringCurrent ≠ buffer then
      .buffer buffer else s.shown := by
  unfold subject
  rw [h]

/-- Show what is searched first. -/
def editSubject (s : Editor) : Editor := { s with shown := s.subject }

/-- Show a buffer, which becomes the current one. -/
def enter (buffer : Nat) (s : Editor) : Editor :=
  { s with shown := .buffer buffer, ringCurrent := buffer }

/-- The effect of a search. -/
def play (sci : Scintilla) : Outcome -> Editor -> Editor
  | .invalid, s => setSearchState (tecoBool false) (searchFailure s)
  | .kept, s => setSearchState (tecoBool true) s.editSubject
  | .found hit, s =>
      setSearchState (tecoBool true) (select sci hit s.editSubject)
  | .missed, s =>
      setSearchState (tecoBool false) (searchFailure s.editSubject)
  | .ring buffer (some hit), s =>
      setSearchState (tecoBool true) (select sci hit (s.enter buffer))
  | .ring buffer none, s =>
      setSearchState (tecoBool false) (searchFailure (s.enter buffer))

end Editor

open Editor

section

variable {Re : Type} (sci : Scintilla) (regexps : Regexps Re)

/-- A search in a part of a text. -/
def findHit (re : Re) (text : Bytes) (fromPos toPos : Nat) (count : Int) :
    Except TecoError (Int × Option Hit) := do
  let result <- findMatch regexps re ((text.take toPos).drop fromPos) count
  pure (result.1, result.2.map (Hit.mk fromPos))

/-- A search in `to_buffer`. -/
def findToBuffer (re : Re) (text : Bytes) (dot : Nat) (count : Int) :
    Except TecoError (Int × Option Hit) :=
  if 0 < count then findHit regexps re text 0 dot count
  else findHit regexps re text dot text.length count

/-- A search over the buffers of the ring, with the last buffer. -/
def findInRing (re : Re) (texts : Nat -> Bytes) (dot toBuffer : Nat) :
    List Nat -> Nat -> Int -> Except TecoError (Int × Nat × Option Hit)
  | [], last, count => .ok (count, last, none)
  | buffer :: rest, _, count =>
      if buffer = toBuffer then do
        let result <- findToBuffer regexps re (texts buffer) dot count
        pure (result.1, buffer, result.2)
      else do
        let text := texts buffer
        let result <- findHit regexps re text 0 text.length count
        if result.1 = 0 then pure (result.1, buffer, result.2)
        else findInRing re texts dot toBuffer rest buffer result.1

/-- The outcome after the search in the first document. -/
def ringOutcome (re : Re) (s : Editor) (count : Int) :
    Except TecoError Outcome :=
  match s.searchParameters.fromBuffer, s.searchParameters.toBuffer with
  | some fromBuffer, some toBuffer => do
      let ring := if 0 < count then s.buffers else s.buffers.reverse
      let result <- findInRing regexps re
        (fun buffer => (s.documents (.buffer buffer)).text)
        s.searchParameters.dot toBuffer (following fromBuffer ring)
        fromBuffer count
      pure (.ring result.2.1 result.2.2)
  | _, _ => pure .missed

/-- The outcome of the search for a regular expression. -/
def regexpOutcome (re : Re) (s : Editor) : Except TecoError Outcome := do
  let parameters := s.searchParameters
  let result <- findHit regexps re (s.documents s.subject).text
    parameters.fromPos.toNat parameters.toPos.toNat parameters.count
  if result.1 = 0 then
    pure (match result.2 with
      | some hit => .found hit
      | none => .kept)
  else ringOutcome regexps re s result.1

/-- The outcome of a search process. -/
def outcome (str : Bytes) (s : Editor) : Except TecoError Outcome := do
  validatePattern regexps str
  let re <- regexps.compile str
  match re with
  | none => pure .invalid
  | some re => regexpOutcome regexps re s

/-!
## A match ends the count
-/

/-- A sequence that succeeds consists of parts that do. -/
theorem except_bind_ok {ε α β : Type} {x : Except ε α} {f : α -> Except ε β}
    {b : β} (h : (x >>= f) = .ok b) : exists a, x = .ok a ∧ f a = .ok b := by
  cases x with
  | error err => cases h
  | ok a => exact ⟨a, rfl, h⟩

theorem forwards_zero {found : Matches} {count result : Int}
    {hit : Option Match} (hcount : count ≠ 0)
    (h : found.forwards count = .ok (result, hit)) :
    result = 0 <-> hit.isSome = true := by
  induction found generalizing count with
  | failed err => cases h
  | done =>
      cases h
      simp [hcount]
  | found head next ih =>
      unfold Matches.forwards at h
      split at h
      · cases h
        simp
      · next hne => exact ih hne h

theorem forwards_rest {found : Matches} {count result : Int}
    {hit : Option Match} (h : found.forwards count = .ok (result, hit))
    (hresult : result ≠ 0) : hit = none := by
  induction found generalizing count with
  | failed err => cases h
  | done =>
      cases h
      rfl
  | found head next ih =>
      unfold Matches.forwards at h
      split at h
      · cases h
        exact absurd rfl hresult
      · exact ih h

theorem backwards_zero {found : Matches} {count result : Int}
    {hit : Option Match} (hcount : count < 0)
    (h : found.backwards count = .ok (result, hit)) :
    result = 0 <-> hit.isSome = true := by
  unfold Matches.backwards at h
  cases hall : found.all with
  | error err =>
      rw [hall] at h
      cases h
  | ok hits =>
      rw [hall] at h
      change (if count.natAbs ≤ hits.length then _ else _) = _ at h
      split at h
      · next hle =>
          cases h
          rw [List.getElem?_eq_getElem (by omega)]
          simp
      · next hle =>
          cases h
          simp only [Option.isSome_none, Bool.false_eq_true, iff_false]
          omega

theorem findMatch_zero {re : Re} {subject : Bytes} {count result : Int}
    {hit : Option Match} (hcount : count ≠ 0)
    (h : findMatch regexps re subject count = .ok (result, hit)) :
    result = 0 <-> hit.isSome = true := by
  unfold findMatch at h
  split at h
  · exact forwards_zero hcount h
  · rcases except_bind_ok h with ⟨_, _, hfound⟩
    exact backwards_zero (by omega) hfound

/-- A search that goes on has the count reached exactly if there is a match. -/
theorem findHit_zero {re : Re} {text : Bytes} {fromPos toPos : Nat}
    {count result : Int} {hit : Option Hit} (hcount : count ≠ 0)
    (h : findHit regexps re text fromPos toPos count = .ok (result, hit)) :
    result = 0 <-> hit.isSome = true := by
  rcases except_bind_ok h with ⟨pair, hpair, hresult⟩
  cases hresult
  rw [findMatch_zero regexps hcount hpair, Option.isSome_map]

/-- Nothing is selected if the count is not reached, not even for a count
of 0. -/
theorem findHit_rest {re : Re} {text : Bytes} {fromPos toPos : Nat}
    {count result : Int} {hit : Option Hit}
    (h : findHit regexps re text fromPos toPos count = .ok (result, hit))
    (hresult : result ≠ 0) : hit = none := by
  rcases except_bind_ok h with ⟨pair, hpair, hpure⟩
  cases hpure
  unfold findMatch at hpair
  split at hpair
  · rw [forwards_rest hpair hresult]
    rfl
  · rcases except_bind_ok hpair with ⟨_, _, hfound⟩
    have hzero := backwards_zero (by omega) hfound
    cases hhit : pair.2 with
    | none => rfl
    | some hit =>
        rw [hhit] at hzero
        exact absurd (hzero.mpr rfl) hresult

theorem findToBuffer_zero {re : Re} {text : Bytes} {dot : Nat}
    {count result : Int} {hit : Option Hit} (hcount : count ≠ 0)
    (h : findToBuffer regexps re text dot count = .ok (result, hit)) :
    result = 0 <-> hit.isSome = true := by
  unfold findToBuffer at h
  split at h
  · exact findHit_zero regexps hcount h
  · exact findHit_zero regexps hcount h

theorem findInRing_zero {re : Re} {texts : Nat -> Bytes}
    {dot toBuffer : Nat} {ring : List Nat} {last : Nat} {count : Int}
    {result : Int × Nat × Option Hit} (hcount : count ≠ 0)
    (h : findInRing regexps re texts dot toBuffer ring last count =
      .ok result) :
    result.1 = 0 <-> result.2.2.isSome = true := by
  induction ring generalizing last count with
  | nil =>
      cases h
      simp [hcount]
  | cons buffer rest ih =>
      unfold findInRing at h
      split at h
      · rcases except_bind_ok h with ⟨pair, hpair, hresult⟩
        cases hresult
        exact findToBuffer_zero regexps hcount hpair
      · rcases except_bind_ok h with ⟨pair, hpair, hresult⟩
        split at hresult
        · cases hresult
          exact findHit_zero regexps hcount hpair
        · next hne => exact ih hne hresult

end

end Editing
end SciTECO
