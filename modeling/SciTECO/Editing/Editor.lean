import Mathlib.Logic.Function.Basic
import SciTECO.Editing.Document

/-!
# The editor

The ring of buffers, the Q-Registers with their documents, the state of the
search commands and the undo stack.
-/

namespace SciTECO
namespace Editing

/-!
## Views
-/

/-- The Q-Registers by the role they have for the commands. -/
inductive QReg where
  /-- The global register `_`. -/
  | search
  /-- The global register `-`. -/
  | replace
  | other (index : Nat) (mustUndo : Bool)
deriving DecidableEq, Repr

/-- The `must_undo` flag, which all global registers have. -/
def QReg.mustUndo : QReg -> Bool
  | search => true
  | replace => true
  | other _ mustUndo => mustUndo

/-- What owns a document. -/
inductive View where
  | buffer (id : Nat)
  | qreg (reg : QReg)
deriving DecidableEq, Repr

/-!
## The state
-/

/-- `teco_range_t`, in glyphs. -/
abbrev Range : Type := Int × Int

/-- `teco_search_parameters_t`. -/
structure SearchParameters where
  dot : Nat
  fromPos : Int
  toPos : Int
  count : Int
  fromBuffer : Option Nat
  toBuffer : Option Nat
deriving DecidableEq, Repr

/-- Undo tokens.  A message goes to the document which is shown when the token
is run. -/
inductive Token where
  | setSel (anchor dot : Nat)
  | gotoPos (pos : Nat)
  | setAnchor (anchor : Nat)
  | undo
  /-- The document that was the string of a register. -/
  | string (reg : QReg) (doc : Document)
  | searchState (value : TecoInt)
  | searchParameters (parameters : SearchParameters)
  | ranges (ranges : List Range)
  /-- `teco_ring_undo_edit()`. -/
  | ringEdit (qregCurrent : Option QReg) (ringCurrent : Nat)
deriving DecidableEq

/-- A request to delete a range, with the length of the document it was made
for. -/
structure Deletion where
  start : Int
  len : Int
  documentLength : Nat
deriving DecidableEq, Repr

/-- The state of the editor.  The latest undo token is at the head.  `recorded`
counts the undo actions which the commands have recorded in documents, and
`deletions` has the requests to delete a range. -/
structure Editor where
  documents : View -> Document
  /-- The buffers of the ring in their order. -/
  buffers : List Nat
  shown : View
  ringCurrent : Nat
  qregCurrent : Option QReg
  searchParameters : SearchParameters
  /-- The integer of the register `_`. -/
  searchState : TecoInt
  ranges : List Range
  /-- The results on the expression stack. -/
  results : List TecoInt
  /-- `teco_default_codepage()` is UTF-8. -/
  defaultIndex : Bool
  undoEnabled : Bool
  tokens : List Token
  recorded : Nat
  deletions : List Deletion

/-- Computations of commands.  An error leaves the state which the command has
reached. -/
abbrev Command (α : Type) : Type := EStateM TecoError Editor α

namespace Editor

/-- The current document. -/
def document (s : Editor) : Document := s.documents s.shown

/-- Send a message to the current document. -/
def ssm (f : Document -> Document) (s : Editor) : Editor :=
  { s with
    documents := Function.update s.documents s.shown (f s.document) }

/-- `teco_undo_push()`. -/
def push (token : Token) (s : Editor) : Editor :=
  if s.undoEnabled then { s with tokens := token :: s.tokens } else s

/-- `teco_current_doc_must_undo()`. -/
def currentDocMustUndo (s : Editor) : Bool :=
  match s.qregCurrent with
  | none => true
  | some reg => reg.mustUndo

/-- An `undo__teco_interface_ssm()` for a document that must be undone. -/
def undoSsm (token : Token) (s : Editor) : Editor :=
  if s.currentDocMustUndo then s.push token else s

/-- What is between `SCI_BEGINUNDOACTION` and `SCI_ENDUNDOACTION` is recorded
as one action, if there is a change at all. -/
def undoAction (f : Editor -> Editor) (s : Editor) : Editor :=
  let t := f s
  { t with
    recorded :=
      if s.document.history.length < t.document.history.length then
        t.recorded + 1
      else t.recorded }

/-- `SCI_DELETERANGE`. -/
def deleteRange (start len : Int) (s : Editor) : Editor :=
  let t := s.ssm (Document.deleteRange start len)
  { t with
    deletions :=
      { start := start, len := len
        documentLength := s.document.text.length } :: t.deletions }

/-- `SCI_REPLACESEL` with an empty string, which deletes the selection. -/
def replaceSel (s : Editor) : Editor :=
  let d := s.document
  s.deleteRange (min d.anchor d.dot)
    ((max d.anchor d.dot : Nat) - (min d.anchor d.dot : Nat))

/-- `undo_set_string()` and `set_string()` of a register, which gets a new
document. -/
def setString (reg : QReg) (str : Bytes) (s : Editor) : Editor :=
  let t :=
    if reg.mustUndo then s.push (.string reg (s.documents (.qreg reg)))
    else s
  { t with
    documents :=
      Function.update t.documents (.qreg reg)
        ((Document.create [] s.defaultIndex).appendText str) }

/-- `get_string()` of a register. -/
def getString (reg : QReg) (s : Editor) : Bytes :=
  (s.documents (.qreg reg)).text

/-!
## Undo
-/

/-- Run an undo token. -/
def runToken (token : Token) (s : Editor) : Editor :=
  match token with
  | .setSel anchor dot => s.ssm (Document.setSel anchor dot)
  | .gotoPos pos => s.ssm (Document.gotoPos pos)
  | .setAnchor anchor => s.ssm (Document.setAnchor anchor)
  | .undo => s.ssm Document.undo
  | .string reg doc =>
      { s with documents := Function.update s.documents (.qreg reg) doc }
  | .searchState value => { s with searchState := value }
  | .searchParameters parameters => { s with searchParameters := parameters }
  | .ranges ranges => { s with ranges := ranges }
  | .ringEdit qregCurrent ringCurrent =>
      { s with
        qregCurrent := qregCurrent, ringCurrent := ringCurrent
        shown := .buffer ringCurrent }

/-- Run tokens, the first one first. -/
def runTokens : List Token -> Editor -> Editor
  | [], s => s
  | token :: rest, s => runTokens rest (s.runToken token)

theorem runTokens_append (later earlier : List Token) (s : Editor) :
    runTokens (later ++ earlier) s =
      runTokens earlier (runTokens later s) := by
  induction later generalizing s with
  | nil => rfl
  | cons token rest ih => exact ih (s.runToken token)

end Editor

/-- The number of `SCI_UNDO` tokens. -/
def undoCount (tokens : List Token) : Nat := tokens.count Token.undo

/-- The range is inside the document. -/
def Deletion.Inside (deletion : Deletion) : Prop :=
  0 ≤ deletion.start ∧ 0 ≤ deletion.len ∧
    deletion.start + deletion.len ≤ deletion.documentLength

instance (deletion : Deletion) : Decidable deletion.Inside := by
  unfold Deletion.Inside
  infer_instance

end Editing
end SciTECO
