import SciTECO.Editing.Search

/-!
# Commands that delete

The deletion of characters, lines and words, and the search commands that
delete or replace what they find.
-/

namespace SciTECO
namespace Editing

/-!
## Words
-/

/-- Skip to the place where the characters change for the second time: the
first ones skipped are word characters if `first` is set. -/
def scanWord (isWord : UInt8 -> Bool) (first : Bool) : Bool -> Bytes -> Bytes
  | _, [] => []
  | skipWord, c :: rest =>
      if (!isWord c) == skipWord then
        if skipWord ≠ first then c :: rest
        else scanWord isWord first (!skipWord) rest
      else scanWord isWord first skipWord rest

/-- Skip words, and tell whether there are enough of them.  What is left of the
text is returned in any case. -/
def scanWords (isWord : UInt8 -> Bool) (first : Bool) :
    Nat -> Bytes -> Bool × Bytes
  | 0, text => (true, text)
  | n + 1, text =>
      match scanWord isWord first first text with
      | [] => (n = 0, [])
      | rest => scanWords isWord first n rest

/-- `teco_find_words()`, with the position it leaves. -/
def findWords (wchars : Bytes) (text : Bytes) (pos : Nat) (n : TecoInt)
    (endOfWord : Bool) : Bool × Nat :=
  let isWord := fun c => wchars.contains c
  if n.toInt = 0 then (true, pos)
  else if 0 < n.toInt then
    if pos = text.length then (false, pos)
    else
      let result := scanWords isWord (!endOfWord) n.toInt.natAbs
        (text.drop pos)
      (result.1, text.length - result.2.length)
  else
    if pos = 0 then (false, pos)
    else
      let result := scanWords isWord endOfWord n.toInt.natAbs
        (text.take pos).reverse
      (result.1, result.2.length)

/-!
## Deletions
-/

section

variable {Re : Type} (sci : Scintilla) (regexps : Regexps Re)

/-- A failure is an error, unless the command is colon-modified and returns a
condition. -/
def report (err : TecoError) (rc : Bool) (modifierColon : Nat) :
    Command Unit :=
  if 0 < modifierColon then
    modify (fun s => { s with results := tecoBool rc :: s.results })
  else if rc then pure ()
  else throw err

/-- Undo the latest action and go back to a position. -/
def undoDeletion (pos : Nat) (s : Editor) : Editor :=
  (s.undoSsm (.gotoPos pos)).undoSsm .undo

/-- The words between two positions are deleted. -/
def deleteBetween (pos start stop : Nat) (s : Editor) : Editor :=
  undoDeletion pos
    (s.undoAction (Editor.deleteRange start (stop - start : Int)))

/-- `teco_error_words_set()`. -/
def wordsError (cmd : String) : TecoError :=
  { code := ErrorCode.words
    message := "Not enough words to perform <" ++ cmd ++ ">" }

/-- The success and the range of a deletion of words. -/
def wordRange (wchars : Bytes) (d : Document) (v : TecoInt)
    (modifierAt : Bool) : Bool × Nat × Nat :=
  let found := findWords wchars d.text d.dot v modifierAt
  if 0 < v.toInt then (found.1, d.dot, found.2) else (found.1, found.2, d.dot)

/-- `teco_state_start_delete_words()`. -/
def startDeleteWords (wchars : Bytes) (cmd : String) (factor v : TecoInt)
    (modifierAt : Bool) (modifierColon : Nat) : Command Unit := do
  let s <- get
  let range := wordRange wchars s.document (v * factor) modifierAt
  modify (fun s =>
    if range.1 ∧ range.2.1 ≠ range.2.2 then
      deleteBetween s.document.dot range.2.1 range.2.2 s
    else s)
  report (wordsError cmd) range.1 modifierColon

/-- The position that a kill command with one number deletes up to, and whether
there is such a position. -/
def killTarget (byLines : Bool) (n : TecoInt) (d : Document) : Int × Bool :=
  if byLines then
    let line := n + BitVec.ofNat 64 (sci.lineFromPosition d.text d.dot)
    (sci.positionFromLine d.text line.toInt, sci.validateLine d line)
  else
    let pos := sci.glyphs2bytesRelative d d.dot n
    (pos, 0 ≤ pos)

/-- The start and the length of the range between the dot and a position. -/
def rangeTo (dot : Nat) (pos : Int) : Int × Int :=
  let len := pos - dot
  if len < 0 then (dot + len, -len) else (dot, len)

/-- The start, the length and the success of a kill command. -/
def killRange (byLines : Bool) (args : Arguments) (d : Document) :
    Int × Int × Bool :=
  match args with
  | .one n =>
      let target := killTarget sci byLines n d
      let range := rangeTo d.dot target.1
      (range.1, range.2, target.2)
  | .two first second =>
      let stop := sci.glyphs2bytes d second
      let start := sci.glyphs2bytes d first
      let len := stop - start
      (start, len, 0 ≤ len ∧ 0 ≤ start ∧ 0 ≤ stop)

/-- `teco_state_start_kill()`. -/
def startKill (cmd : String) (byLines : Bool) (args : Arguments)
    (modifierColon : Nat) : Command Unit := do
  let s <- get
  let range := killRange sci byLines args s.document
  report (rangeError cmd) range.2.2 modifierColon
  modify (fun s =>
    if range.2.1 = 0 ∨ ¬ range.2.2 then s
    else
      (undoDeletion s.document.dot s).undoAction
        (Editor.deleteRange range.1 range.2.1))

/-!
## Search commands
-/

/-- The complete pattern is processed once, unless it is empty. -/
def processPattern (str : Bytes) : Command Unit :=
  if str ≠ [] then searchProcess sci regexps str else pure ()

/-- A search command up to the end of its pattern.  While the pattern is typed,
other strings are processed before the complete one. -/
def searching (args : Arguments) (typed : List Bytes) (str : Bytes)
    (modifierColon : Nat) : Command Unit := do
  searchInitial sci args
  typed.forM (fun str => searchProcess sci regexps str)
  processPattern sci regexps str
  searchDone sci regexps str modifierColon

/-- Delete from the dot of the search to the match. -/
def killForwards (s : Editor) : Editor :=
  let start := s.searchParameters.dot
  let dot := s.document.dot
  let anchor := s.document.anchor
  let lenGlyphs :=
    sci.bytes2glyphs s.document anchor - sci.bytes2glyphs s.document start
  let t := (s.undoSsm (.gotoPos dot)).ssm (Document.gotoPos anchor)
  let u := t.deleteRange start (anchor - start : Int)
  let v := if start ≠ anchor then u.undoSsm .undo else u
  { v with
    ranges := v.ranges.map (fun range =>
      (range.1 - lenGlyphs, range.2 - lenGlyphs)) }

/-- Delete from the match to the dot of the search. -/
def killBackwards (s : Editor) : Editor :=
  let start := s.searchParameters.dot
  let dot := s.document.dot
  let t := s.deleteRange dot (start - dot : Int)
  if start ≠ dot then t.undoSsm .undo else t

/-- What `teco_state_search_kill_done()` does after a successful search. -/
def searchKill (s : Editor) : Editor :=
  s.undoAction (fun s =>
    if s.searchParameters.dot < s.document.dot then killForwards sci s
    else killBackwards s)

/-- What `teco_state_search_delete_done()` does after a successful search. -/
def searchDelete (s : Editor) : Editor :=
  (s.undoAction Editor.replaceSel).undoSsm .undo

/-- Run a step after a successful search. -/
def onSuccess (step : Editor -> Editor) : Command Unit :=
  modify (fun s => if isSuccess s.searchState then step s else s)

/-- `teco_state_search_kill_done()` with the whole command before it. -/
def searchKillCommand (args : Arguments) (typed : List Bytes) (str : Bytes)
    (modifierColon : Nat) : Command Unit := do
  searching sci regexps args typed str modifierColon
  onSuccess (searchKill sci)

/-- `teco_state_search_delete_done()` with the whole command before it. -/
def searchDeleteCommand (args : Arguments) (typed : List Bytes) (str : Bytes)
    (modifierColon : Nat) : Command Unit := do
  searching sci regexps args typed str modifierColon
  onSuccess searchDelete

/-- `teco_state_insert_process()` for the characters that have been added to
the argument.  It asserts that there are some. -/
def insertProcess (newChars : { str : Bytes // str ≠ [] }) (s : Editor) :
    Editor :=
  (s.undoAction (Editor.ssm (Document.addText newChars))).undoSsm .undo

/-- A string argument that is inserted while it is typed. -/
def replaceInsert (chunks : List { str : Bytes // str ≠ [] }) :
    Command Unit :=
  chunks.forM (fun newChars => modify (insertProcess newChars))

/-- `teco_state_insert_done()`, where the undo token of the range is one for
all ranges. -/
def insertDone (s : Editor) : Editor :=
  let t := s.push (.ranges s.ranges)
  match s.ranges with
  | [] => t
  | range :: rest =>
      { t with
        ranges :=
          (range.1, sci.bytes2glyphs s.document s.document.dot) :: rest }

/-- `teco_state_replace_done()` and the states behind it.  The replacement is
ignored if the search fails. -/
def replaceCommand (args : Arguments) (typed : List Bytes) (str : Bytes)
    (modifierColon : Nat) (chunks : List { str : Bytes // str ≠ [] }) :
    Command Unit := do
  searchDeleteCommand sci regexps args typed str modifierColon
  let s <- get
  if isSuccess s.searchState then do
    replaceInsert chunks
    modify (insertDone sci)
  else pure ()

/-- The string of the register `-` is inserted. -/
def insertReplaceString (s : Editor) : Editor :=
  if h : s.getString .replace ≠ [] then
    insertProcess ⟨s.getString .replace, h⟩ s
  else s

/-- `teco_state_replace_default_insert_done_overwrite()`. -/
def replaceDefaultInsertDone (str : Bytes) (s : Editor) : Editor :=
  if str ≠ [] then s.setString .replace str else insertReplaceString s

/-- `teco_state_replace_default_ignore_done()`. -/
def replaceDefaultIgnoreDone (str : Bytes) (s : Editor) : Editor :=
  if str ≠ [] then s.setString .replace str else s

/-- `teco_state_replace_default_done()` and the states behind it. -/
def replaceDefaultCommand (args : Arguments) (typed : List Bytes)
    (str : Bytes) (modifierColon : Nat)
    (chunks : List { str : Bytes // str ≠ [] }) : Command Unit := do
  searchDeleteCommand sci regexps args typed str modifierColon
  let s <- get
  let replacement := chunks.flatMap Subtype.val
  if isSuccess s.searchState then do
    replaceInsert chunks
    modify (replaceDefaultInsertDone replacement)
  else modify (replaceDefaultIgnoreDone replacement)

end

end Editing
end SciTECO
