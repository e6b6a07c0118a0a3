import SciTECO.Editing.Positions

/-!
# Searching

The search commands run `teco_state_search_process()` while the pattern is
typed and `teco_state_search_done()` at its end.
-/

namespace SciTECO
namespace Editing

/-!
## Regular expressions
-/

/-- The ranges of a match and of its groups, relative to the subject.  A group
that does not take part has a negative position. -/
structure Match where
  whole : Int × Int
  groups : List (Int × Int)
deriving DecidableEq, Repr

/-- What `g_regex_match_full()` and `g_match_info_next()` find one after the
other. -/
inductive Matches where
  | failed (err : TecoError)
  | done
  | found (hit : Match) (next : Matches)
deriving DecidableEq, Repr

/-- The regular expressions of patterns.  A pattern is in the encoding of the
document. -/
structure Regexps (Re : Type) where
  /-- The codepage of the search string is not UTF-8. -/
  singleByte : Bool
  /-- `teco_pattern2regexp()` and `g_regex_new()`.  There is no regular
  expression for an incomplete or an invalid pattern. -/
  compile : Bytes -> Except TecoError (Option Re)
  matchFull : Re -> Bytes -> Matches
  /-- `teco_memory_check()` for a number of matches. -/
  memoryCheck : Nat -> Except TecoError Unit

namespace Matches

/-- The match which a count that is not negative selects, with the rest of the
count. -/
def forwards : Int -> Matches -> Except TecoError (Int × Option Match)
  | _, failed err => .error err
  | count, done => .ok (count, none)
  | count, found hit next =>
      if count - 1 = 0 then .ok (0, some hit) else forwards (count - 1) next

/-- All matches in their order. -/
def all : Matches -> Except TecoError (List Match)
  | failed err => .error err
  | done => .ok []
  | found hit next => do
      let rest <- all next
      pure (hit :: rest)

/-- The match which a negative count selects from the end. -/
def backwards (count : Int) (found : Matches) :
    Except TecoError (Int × Option Match) := do
  let hits <- all found
  let matchedNum := count.natAbs
  if matchedNum ≤ hits.length then
    pure (0, hits[hits.length - matchedNum]?)
  else
    pure (count + hits.length, none)

end Matches

/-- `teco_get_ranges()`. -/
def getRanges (offset : Nat) (hit : Match) : List (Nat × Nat) :=
  (hit.whole :: hit.groups).map (fun range =>
    (offset + (max range.1 0).toNat, offset + (max range.2 0).toNat))

/-!
## The search process
-/

section

variable {Re : Type} (sci : Scintilla) (regexps : Regexps Re)

/-- A computation without effects. -/
def ofExcept {α : Type} : Except TecoError α -> Command α
  | .ok a => pure a
  | .error err => throw err

/-- Select a match and store its ranges. -/
def selectRanges (ranges : List (Nat × Nat)) (s : Editor) : Editor :=
  let t := s.push (.ranges s.ranges)
  match ranges with
  | [] => t
  | range :: _ =>
      let u := t.ssm (Document.setSel range.1 range.2)
      { u with
        ranges := ranges.map (fun range =>
          (sci.bytes2glyphs u.document range.1,
            sci.bytes2glyphs u.document range.2)) }

/-- The match in a text for a count. -/
def findMatch (re : Re) (subject : Bytes) (count : Int) :
    Except TecoError (Int × Option Match) :=
  if 0 ≤ count then (regexps.matchFull re subject).forwards count
  else do
    regexps.memoryCheck count.natAbs
    (regexps.matchFull re subject).backwards count

/-- A match in the current document is selected. -/
def selectMatch (offset : Nat) : Option Match -> Editor -> Editor
  | some hit, s => selectRanges sci (getRanges offset hit) s
  | none, s => s

/-- `teco_do_search()`, which returns the rest of the count. -/
def doSearch (re : Re) (fromPos toPos : Nat) (count : Int) :
    Command Int := do
  let s <- get
  let subject := (s.document.text.take toPos).drop fromPos
  let result <- ofExcept (findMatch regexps re subject count)
  modify (selectMatch sci fromPos result.2)
  pure result.1

/-- `teco_buffer_edit()`, which leaves `teco_ring_current`. -/
def bufferEdit (buffer : Nat) (s : Editor) : Editor :=
  { s with shown := .buffer buffer }

/-- `teco_ring_undo_edit()`. -/
def ringUndoEdit (s : Editor) : Editor :=
  s.push (.ringEdit s.qregCurrent s.ringCurrent)

/-- The buffers behind a buffer, around the ring and back to it. -/
def following (buffer : Nat) (buffers : List Nat) : List Nat :=
  (buffers.dropWhile (fun b => b ≠ buffer)).tail ++
    buffers.takeWhile (fun b => b ≠ buffer) ++ [buffer]

/-- The search in `to_buffer`, up to the dot or back to it. -/
def searchToBuffer (re : Re) (dot size : Nat) (count : Int) : Command Int :=
  if 0 < count then doSearch sci regexps re 0 dot count
  else doSearch sci regexps re dot size count

/-- The loop over the buffers up to `to_buffer`.  The result has the rest of
the count and the last buffer. -/
def searchBuffers (re : Re) (parameters : SearchParameters) (toBuffer : Nat) :
    List Nat -> Nat -> Int -> Command (Int × Nat)
  | [], last, count => pure (count, last)
  | buffer :: rest, _, count => do
      modify (bufferEdit buffer)
      let s <- get
      let size := s.document.text.length
      if buffer = toBuffer then do
        let count <- searchToBuffer sci regexps re parameters.dot size count
        pure (count, buffer)
      else do
        let count <- doSearch sci regexps re 0 size count
        if count = 0 then pure (count, buffer)
        else searchBuffers re parameters toBuffer rest buffer count

/-- `teco_bool()`. -/
def tecoBool (b : Bool) : TecoInt := if b then -1 else 0

/-- `teco_is_success()`. -/
def isSuccess (value : TecoInt) : Bool := value.slt 0

/-- `undo_set_integer()` and `set_integer()` of the register `_`. -/
def setSearchState (value : TecoInt) (s : Editor) : Editor :=
  { s with searchState := value }

/-- No match has been found. -/
def searchFailure (s : Editor) : Editor :=
  s.ssm (Document.gotoPos s.searchParameters.dot)

/-- The search over the buffers of the ring behind `from_buffer`. -/
def searchRing (re : Re) (fromBuffer toBuffer : Nat) (count : Int) :
    Command Int := do
  modify (fun s => if s.ringCurrent = fromBuffer then ringUndoEdit s else s)
  let s <- get
  let ring := if 0 < count then s.buffers else s.buffers.reverse
  let result <- searchBuffers sci regexps re s.searchParameters toBuffer
    (following fromBuffer ring) fromBuffer count
  modify (fun s => { s with ringCurrent := result.2 })
  pure result.1

/-- The search goes on in other buffers if the count is not reached. -/
def searchOthers (re : Re) (parameters : SearchParameters) (count : Int) :
    Command Int :=
  match parameters.fromBuffer, parameters.toBuffer with
  | some fromBuffer, some toBuffer =>
      if count = 0 then pure count
      else searchRing sci regexps re fromBuffer toBuffer count
  | _, _ => pure count

/-- The search starts in `from_buffer`, unless a register is edited. -/
def editFromBuffer (s : Editor) : Editor :=
  match s.searchParameters.fromBuffer with
  | some buffer =>
      if s.qregCurrent = none ∧ s.ringCurrent ≠ buffer then
        bufferEdit buffer (ringUndoEdit s)
      else s
  | none => s

/-- The search for a regular expression. -/
def searchRegexp (re : Re) : Command Unit := do
  modify editFromBuffer
  let s <- get
  let parameters := s.searchParameters
  let count <- doSearch sci regexps re parameters.fromPos.toNat
    parameters.toPos.toNat parameters.count
  let count <- searchOthers sci regexps re parameters count
  modify (setSearchState (tecoBool (count = 0)))
  if count = 0 then pure () else modify searchFailure

/-- `g_regex_new()` may have no result. -/
def searchCompiled : Option Re -> Command Unit
  | none => modify searchFailure
  | some re => searchRegexp sci regexps re

/-- A pattern for a document in UTF-8 must be UTF-8. -/
def validatePattern (str : Bytes) : Except TecoError Unit :=
  if regexps.singleByte ∨ validateUtf8 str.length str then .ok ()
  else
    .error
      { code := ErrorCode.codepoint
        message := "Invalid UTF-8 byte sequence in search pattern" }

/-- `teco_state_search_process()`. -/
def searchProcess (str : Bytes) : Command Unit := do
  ofExcept (validatePattern regexps str)
  modify (fun s =>
    s.undoSsm (.setSel s.document.anchor s.document.dot))
  modify (fun s =>
    setSearchState (tecoBool false) (s.push (.searchState s.searchState)))
  let re <- ofExcept (regexps.compile str)
  searchCompiled sci regexps re

/-- The pattern becomes the string of the register `_`.  The selection is
preserved. -/
def setSearchString (str : Bytes) (s : Editor) : Editor :=
  let anchor := s.document.anchor
  ((s.undoSsm (.setAnchor anchor)).setString .search str).ssm
    (Document.setAnchor anchor)

/-- A pattern is stored, and the stored pattern is searched for if there is
none. -/
def storePattern (str : Bytes) : Command Unit := do
  let s <- get
  if str ≠ [] then modify (setSearchString str)
  else searchProcess sci regexps (s.getString .search)

/-- The condition of a colon-modified search. -/
def pushState (modifierColon : Nat) (s : Editor) : Editor :=
  if 0 < modifierColon then { s with results := s.searchState :: s.results }
  else s

/-- `teco_state_search_done()`.  The message for a pattern that is not found is
left out. -/
def searchDone (str : Bytes) (modifierColon : Nat) : Command Unit := do
  storePattern sci regexps str
  modify (pushState modifierColon)

/-!
## Arguments
-/

/-- The numbers before a command: one number, which may come from the sign
prefix, or two. -/
inductive Arguments where
  | one (n : TecoInt)
  | two (first second : TecoInt)
deriving DecidableEq, Repr

/-- `teco_error_range_set()`. -/
def rangeError (cmd : String) : TecoError :=
  { code := ErrorCode.range
    message := "Invalid range specified for <" ++ cmd ++ ">" }

/-- Where to search in the current document, and for which match. -/
def searchRange (args : Arguments) (d : Document) : Int × Int × Int :=
  match args with
  | .two v1 v2 =>
      if v1.sle v2 then (sci.glyphs2bytes d v1, sci.glyphs2bytes d v2, 1)
      else (sci.glyphs2bytes d v2, sci.glyphs2bytes d v1, -1)
  | .one v =>
      -- the count is a `gint`
      let count := (v.setWidth 32).toInt
      if v.slt 0 then (0, d.dot, count) else (d.dot, d.text.length, count)

/-- The parameters of a search in the current document. -/
def setSearchParameters (range : Int × Int × Int) (s : Editor) : Editor :=
  { s with
    searchParameters :=
      { dot := s.document.dot
        fromPos := range.1, toPos := range.2.1, count := range.2.2
        fromBuffer :=
          if s.qregCurrent = none then some s.ringCurrent else none
        toBuffer := none } }

/-- `teco_state_search_initial()`.  The parameters are undone if it fails. -/
def searchInitial (args : Arguments) : Command Unit := do
  modify (fun s => s.push (.searchParameters s.searchParameters))
  let s <- get
  let range := searchRange sci args s.document
  if range.1 < 0 ∨ range.2.1 < 0 then throw (rangeError "S")
  else modify (setSearchParameters range)

end

/-!
## A sample

Patterns which stand for themselves are searched for in texts of single-byte
characters.
-/

/-- Scintilla for a text of single-byte characters on one line. -/
def singleLine : Scintilla :=
  { lineCount := fun _ => 1
    lineFromPosition := fun _ _ => 0
    positionFromLine := fun _ _ => 0
    lineFromIndexPosition := fun _ _ => 0
    indexPositionFromLine := fun _ _ => 0
    countCharacters := fun _ start stop => stop - start.toNat
    positionRelative := fun text pos n =>
      if pos + n ≤ text.length then (pos + n).toNat else 0
    positionFromLine_inside := by
      intro text line _ _
      omega
    positionRelative_le := by
      intro text pos n
      split <;> omega }

/-- The occurrences of a string in a subject, where `skip` bytes belong to the
previous one. -/
def occurrences (str : Bytes) : Nat -> Nat -> Bytes -> Matches
  | _, _, [] => .done
  | skip + 1, pos, _ :: rest => occurrences str skip (pos + 1) rest
  | 0, pos, c :: rest =>
      if str.isPrefixOf (c :: rest) then
        .found { whole := (pos, pos + str.length), groups := [] }
          (occurrences str (str.length - 1) (pos + 1) rest)
      else occurrences str 0 (pos + 1) rest

/-- Patterns which stand for themselves. -/
def literalRegexps : Regexps Bytes :=
  { singleByte := true
    compile := fun str => .ok (if str = [] then none else some str)
    matchFull := fun str subject => occurrences str 0 0 subject
    memoryCheck := fun _ => .ok () }

/-- The dot is in the middle of a text of four characters. -/
def middleOfText : Editor :=
  { documents := fun _ =>
      (Document.create (utf8 "abcd") false).gotoPos 2
    buffers := [0]
    shown := .buffer 0
    ringCurrent := 0
    qregCurrent := none
    searchParameters :=
      { dot := 0, fromPos := 0, toPos := 0, count := 0
        fromBuffer := none, toBuffer := none }
    searchState := 0
    ranges := []
    results := []
    defaultIndex := false
    undoEnabled := true
    tokens := []
    recorded := 0
    deletions := [] }

/-- A text with a character twice. -/
def twiceInText : Editor :=
  { middleOfText with
    documents := fun _ => Document.create (utf8 "abca") false }

/-- Another buffer with the same text follows the current one. -/
def twoBuffers : Editor := { middleOfText with buffers := [0, 1] }

/-- Three buffers with the same text. -/
def threeBuffers : Editor := { middleOfText with buffers := [0, 1, 2] }

/-- The second of two buffers is empty, and the dot is at the start of the
first one. -/
def emptySecond : Editor :=
  { twoBuffers with
    documents := fun view =>
      Document.create (if view = .buffer 1 then [] else utf8 "abcd") false }

end Editing
end SciTECO
