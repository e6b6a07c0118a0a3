import Mathlib.Data.List.Basic
import Mathlib.Logic.Function.Basic
import Mathlib.Tactic.Common
import SciTECO.Strings

/-!
# Documents of Q-Registers

The strings of Q-Registers are Scintilla documents with reference counts.  All
of them are edited in one view, which also holds a reference.  The documents of
the push-down stack and those that are kept in undo tokens are owned by the
stack and by the tokens.

A computation has no result if a document is used that is not referenced any
more, or if a cell of the push-down stack is used that is not part of the array.
-/

namespace SciTECO
namespace Documents

abbrev DocId : Type := Nat

/-- The parameters of a `teco_doc_t`, which a view has as well. -/
structure Params where
  anchor : Nat
  dot : Nat
  firstLine : Nat
  xoffset : Nat
deriving DecidableEq, Repr

def Params.zero : Params :=
  { anchor := 0, dot := 0, firstLine := 0, xoffset := 0 }

/-- A Scintilla document.  `history` are the texts to which `SCI_UNDO`
returns. -/
structure Document where
  refs : Nat
  text : Bytes
  history : List Bytes
deriving DecidableEq, Repr

/-- `teco_doc_t`. -/
structure TecoDoc where
  doc : Option DocId
  params : Params
deriving DecidableEq, Repr

/-- `teco_doc_init()`. -/
def TecoDoc.init : TecoDoc := { doc := none, params := .zero }

/-- `teco_qreg_t`.  `external` registers have the string somewhere else and
exchange it by their `get_string` and `set_string` methods. -/
structure QReg (Reg : Type) where
  name : Reg
  string : TecoDoc
  mustUndo : Bool
  external : Bool
deriving DecidableEq

/-- Where a `teco_doc_t` is: in a register, in a cell of the push-down stack, or
in the local variable of `teco_qreg_stack_push()`.  The array of the stack is in
another block of memory each time it has been moved. -/
inductive Place (Reg : Type) where
  | qreg (name : Reg)
  | cell (block index : Nat)
  | entry
deriving DecidableEq

/-- Undo tokens.  `params` stands for the four tokens of `teco_doc_undo_reset()`
and `edit` for those of `teco_doc_undo_edit()`. -/
inductive Token (Reg : Type) where
  | document (place : Place Reg) (value : Option DocId)
  | params (place : Place Reg) (value : Params)
  | edit (doc : DocId) (params : Params)
  | viewUndo
  | stackRemoveLast
  | stackEntry (entry : TecoDoc)
  | tableRemove (name : Reg)
deriving DecidableEq

/-- `teco_qreg_view`. -/
structure View where
  doc : DocId
  params : Params
deriving DecidableEq, Repr

/-- A call of `teco_qreg_stack_pop()` which has set the integer: the register
and the cell of the entry. -/
structure Popping (Reg : Type) where
  name : Reg
  block : Nat
  index : Nat
deriving DecidableEq

structure State (Reg : Type) where
  docs : DocId -> Document
  nextDoc : DocId
  qregs : List (QReg Reg)
  /-- `teco_qreg_current` -/
  current : Option Reg
  view : View
  /-- `teco_qreg_stack`, its block of memory and what fits into it. -/
  stack : List TecoDoc
  block : Nat
  capacity : Nat
  /-- `entry.string` in `teco_qreg_stack_push()` -/
  entry : TecoDoc
  popping : List (Popping Reg)
  /-- `teco_undo_enabled` -/
  undoEnabled : Bool
  /-- `teco_undo_heads`, with the latest character and token first. -/
  undo : List (List (Token Reg))

namespace State

variable {Reg : Type} [DecidableEq Reg]

/-!
## Scintilla
-/

def setDocument (id : DocId) (document : Document) (s : State Reg) :
    State Reg :=
  { s with docs := Function.update s.docs id document }

/-- `SCI_CREATEDOCUMENT`. -/
def createDocument (s : State Reg) : DocId × State Reg :=
  (s.nextDoc,
    { s with
      docs := Function.update s.docs s.nextDoc
        { refs := 1, text := [], history := [] }
      nextDoc := s.nextDoc + 1 })

/-- `SCI_ADDREFDOCUMENT`. -/
def addRefDocument (id : DocId) (s : State Reg) : Option (State Reg) :=
  if (s.docs id).refs = 0 then none
  else some (s.setDocument id
    { s.docs id with refs := (s.docs id).refs + 1 })

/-- `SCI_RELEASEDOCUMENT`. -/
def releaseDocument (id : DocId) (s : State Reg) : Option (State Reg) :=
  if (s.docs id).refs = 0 then none
  else some (s.setDocument id
    { s.docs id with refs := (s.docs id).refs - 1 })

/-- `SCI_SETDOCPOINTER`. -/
def setDocPointer (id : DocId) (s : State Reg) : Option (State Reg) := do
  let s <- s.addRefDocument id
  let s <- s.releaseDocument s.view.doc
  some { s with view := { doc := id, params := .zero } }

/-- `SCI_SETFIRSTVISIBLELINE`, `SCI_SETXOFFSET` and `SCI_SETSEL`. -/
def setViewParams (params : Params) (s : State Reg) : State Reg :=
  { s with view := { s.view with params := params } }

/-- `SCI_APPENDTEXT`, as an undo action of its own. -/
def appendText (str : Bytes) (s : State Reg) : State Reg :=
  let document := s.docs s.view.doc
  if str = [] then s
  else s.setDocument s.view.doc
    { document with
      text := document.text ++ str
      history := document.text :: document.history }

/-- `SCI_UNDO`.  The caret is put where the text has changed. -/
def viewUndo (s : State Reg) : State Reg :=
  let document := s.docs s.view.doc
  match document.history with
  | [] => s
  | text :: history =>
      (s.setDocument s.view.doc
        { document with text := text, history := history }).setViewParams
        { s.view.params with anchor := text.length, dot := text.length }

/-!
## Registers and places
-/

def find (name : Reg) (s : State Reg) : Option (QReg Reg) :=
  s.qregs.find? (fun qreg => qreg.name = name)

def updateQReg (name : Reg) (doc : TecoDoc) (qregs : List (QReg Reg)) :
    List (QReg Reg) :=
  qregs.map (fun qreg =>
    if qreg.name = name then { qreg with string := doc } else qreg)

def read (place : Place Reg) (s : State Reg) : Option TecoDoc :=
  match place with
  | .qreg name => (s.find name).map QReg.string
  | .cell block index => if block = s.block then s.stack[index]? else none
  | .entry => some s.entry

def write (place : Place Reg) (doc : TecoDoc) (s : State Reg) : State Reg :=
  match place with
  | .qreg name => { s with qregs := updateQReg name doc s.qregs }
  | .cell _ index => { s with stack := s.stack.set index doc }
  | .entry => { s with entry := doc }

/-- `teco_qreg_current->must_undo`, where there is one. -/
def currentMustUndo (s : State Reg) : Bool :=
  match s.current with
  | none => false
  | some name =>
      match s.find name with
      | none => false
      | some qreg => qreg.mustUndo

/-!
## Undo tokens
-/

/-- `teco_undo_push()`. -/
def push (token : Token Reg) (s : State Reg) : State Reg :=
  if s.undoEnabled then
    match s.undo with
    | [] => { s with undo := [[token]] }
    | tokens :: undo => { s with undo := (token :: tokens) :: undo }
  else s

/-- The next character of the command line. -/
def nextCharacter (s : State Reg) : State Reg :=
  if s.undoEnabled then { s with undo := [] :: s.undo } else s

/-- `teco_doc_scintilla_ref()`. -/
def docScintillaRef (doc : Option DocId) (s : State Reg) :
    Option (State Reg) :=
  match doc with
  | none => some s
  | some id => s.addRefDocument id

/-- `teco_doc_scintilla_release()`. -/
def docScintillaRelease (doc : Option DocId) (s : State Reg) :
    Option (State Reg) :=
  match doc with
  | none => some s
  | some id => s.releaseDocument id

/-- `teco_undo_object_doc_scintilla_push()`. -/
def undoObjectPush (place : Place Reg) (s : State Reg) :
    Option (State Reg) := do
  if s.undoEnabled then
    let ctx <- s.read place
    let s <- s.docScintillaRef ctx.doc
    some (s.push (.document place ctx.doc))
  else
    some s

/-!
## `doc.c`
-/

def docGetScintilla (place : Place Reg) (s : State Reg) :
    Option (DocId × State Reg) := do
  let ctx <- s.read place
  match ctx.doc with
  | some id => some (id, s)
  | none =>
      let (id, s) := s.createDocument
      some (id, s.write place { ctx with doc := some id })

def docEdit (place : Place Reg) (s : State Reg) : Option (State Reg) := do
  let (id, s) <- s.docGetScintilla place
  let s <- s.setDocPointer id
  let ctx <- s.read place
  some (s.setViewParams ctx.params)

def docUndoEdit (place : Place Reg) (s : State Reg) :
    Option (State Reg) := do
  let ctx <- s.read place
  let (id, s) <- s.docGetScintilla place
  some (s.push (.edit id ctx.params))

/-- `teco_doc_update()` from the register view. -/
def docUpdate (place : Place Reg) (s : State Reg) : Option (State Reg) := do
  let ctx <- s.read place
  some (s.write place { ctx with params := s.view.params })

def updateCurrent (s : State Reg) : Option (State Reg) :=
  match s.current with
  | none => some s
  | some name => s.docUpdate (.qreg name)

def editCurrent (s : State Reg) : Option (State Reg) :=
  match s.current with
  | none => some s
  | some name => s.docEdit (.qreg name)

def docSetString (place : Place Reg) (str : Bytes) (s : State Reg) :
    Option (State Reg) := do
  let s <- s.updateCurrent
  let ctx <- s.read place
  let s <- s.docScintillaRelease ctx.doc
  let s := s.write place .init
  let s <- s.docEdit place
  (s.appendText str).editCurrent

def docUndoReset (place : Place Reg) (s : State Reg) :
    Option (State Reg) := do
  let ctx <- s.read place
  some (s.push (.params place ctx.params))

def docUndoSetString (place : Place Reg) (s : State Reg) :
    Option (State Reg) := do
  let s <- s.docUpdate place
  let s <-
    (if s.currentMustUndo ∧ s.current.map Place.qreg = some place then
      s.docUndoEdit place
    else some s)
  let s <- s.docUndoReset place
  s.undoObjectPush place

/-- A document which does not exist is the empty string. -/
def docGetString (place : Place Reg) (s : State Reg) :
    Option (Bytes × State Reg) := do
  let ctx <- s.read place
  match ctx.doc with
  | none => some ([], s)
  | some _ =>
      let s <- s.updateCurrent
      let s <- s.docEdit place
      let str := (s.docs s.view.doc).text
      let s <- s.editCurrent
      some (str, s)

def docExchange (place other : Place Reg) (s : State Reg) :
    Option (State Reg) := do
  let ctx <- s.read place
  let otherCtx <- s.read other
  some ((s.write place otherCtx).write other ctx)

def docUndoExchange (place : Place Reg) (s : State Reg) :
    Option (State Reg) := do
  let s <- s.undoObjectPush place
  s.docUndoReset place

/-!
## `qreg.c`
-/

/-- The undo method and the method by which the string of a plain register is
set. -/
def plainSetString (name : Reg) (str : Bytes) (s : State Reg) :
    Option (State Reg) := do
  let qreg <- s.find name
  let s <-
    (if qreg.mustUndo then s.docUndoSetString (.qreg name) else some s)
  s.docSetString (.qreg name) str

/-- `teco_doc_undo_edit()` of the current register, if there is one. -/
def undoEditCurrent (s : State Reg) : Option (State Reg) :=
  match s.current with
  | some current =>
      if s.currentMustUndo then s.docUndoEdit (.qreg current) else some s
  | none => some s

/-- The tokens which `teco_qreg_plain_append_string()` pushes first. -/
def plainUndoAppend (name : Reg) (s : State Reg) : Option (State Reg) := do
  let s <- s.docUpdate (.qreg name)
  let s <- s.undoEditCurrent
  let s <- s.docUndoReset (.qreg name)
  some (s.push .viewUndo)

def plainAppendString (name : Reg) (str : Bytes) (s : State Reg) :
    Option (State Reg) :=
  if str = [] then
    some s
  else do
    let qreg <- s.find name
    let s <- (if qreg.mustUndo then s.plainUndoAppend name else some s)
    let s <- s.updateCurrent
    let s <- s.docEdit (.qreg name)
    let s <- (s.appendText str).editCurrent
    if qreg.mustUndo then s.docUndoEdit (.qreg name) else some s

/-- `g_array_append_val()` of an entry, which belongs to the stack afterwards.
The array is moved when it is full. -/
def stackAppend (entry : TecoDoc) (s : State Reg) : State Reg :=
  let full := s.stack.length = s.capacity
  { s with
    stack := s.stack ++ [entry]
    block := if full then s.block + 1 else s.block
    capacity := if full then 2 * s.capacity else s.capacity
    entry := .init }

/-- `teco_qreg_stack_push()`.  `own` is what `get_string` returns for an external
register, where `none` is an error. -/
def stackPush (name : Reg) (own : Option Bytes) (s : State Reg) :
    Option (State Reg) := do
  let qreg <- s.find name
  if qreg.external ∧ own = none then
    some s
  else do
    let (str, s) <-
      (if qreg.external then some (own.getD [], s)
      else s.docGetString (.qreg name))
    let s <- (s.write .entry .init).docSetString .entry str
    let ctx <- s.read (.qreg name)
    some ((s.stackAppend { s.entry with params := ctx.params }).push
      .stackRemoveLast)

/-- `teco_qreg_stack_entry_clear()` and the removal of the last entry. -/
def stackRemoveLast (s : State Reg) : Option (State Reg) := do
  let entry <- s.stack.getLast?
  let s <- s.docScintillaRelease entry.doc
  some { s with stack := s.stack.dropLast }

/-- `teco_undo_qreg_stack_push_own()` -/
def undoStackPushOwn (entry : TecoDoc) (s : State Reg) :
    Option (State Reg) :=
  if s.undoEnabled then some (s.push (.stackEntry entry))
  else s.docScintillaRelease entry.doc

/-- `teco_qreg_stack_pop()` up to the point where the integer is set.
`accepted` tells whether that succeeds.  Setting the integer of some registers
executes other code. -/
def stackPopInteger (name : Reg) (accepted : Bool) (s : State Reg) :
    State Reg :=
  if s.stack ≠ [] ∧ accepted then
    { s with
      popping :=
        { name := name, block := s.block, index := s.stack.length - 1 } ::
          s.popping }
  else s

/-- What the methods of an external register return. -/
structure External where
  undoSetString : Bool
  getString : Option Bytes
  setString : Bool
deriving DecidableEq, Repr

/-- The methods `undo_exchange_string` and `exchange_string` of a plain
register. -/
def plainExchangeString (qreg : QReg Reg) (src : Place Reg) (s : State Reg) :
    Option (Bool × State Reg) := do
  let s <-
    (if qreg.mustUndo then s.docUndoExchange (.qreg qreg.name) else some s)
  let s <- s.docUndoExchange src
  let s <- s.docExchange (.qreg qreg.name) src
  some (true, s)

def externalExchangeString (qreg : QReg Reg) (external : External)
    (src : Place Reg) (s : State Reg) : Option (Bool × State Reg) :=
  if external.undoSetString then do
    let s <- (if qreg.mustUndo then s.docUndoSetString src else some s)
    let (_, s) <- s.docGetString src
    match external.getString with
    | none => some (false, s)
    | some own =>
        if external.setString then do
          let s <- s.docSetString src own
          some (true, s)
        else some (false, s)
  else some (false, s)

def exchangeString (qreg : QReg Reg) (external : External)
    (src : Place Reg) (s : State Reg) : Option (Bool × State Reg) :=
  if qreg.external then s.externalExchangeString qreg external src
  else s.plainExchangeString qreg src

/-- The rest of `teco_qreg_stack_pop()`. -/
def stackPopString (external : External) (s : State Reg) :
    Option (State Reg) :=
  match s.popping with
  | [] => some s
  | pop :: popping => do
      let s := { s with popping := popping }
      let qreg <- s.find pop.name
      let src := Place.cell pop.block pop.index
      let (done, s) <- s.exchangeString qreg external src
      if done then
        -- pass entry ownership to undo stack
        let entry <- s.read src
        let s <- s.undoStackPushOwn entry
        some { s with stack := s.stack.dropLast }
      else some s

/-- `teco_qreg_table_insert()` of a new plain register, and its undo token. -/
def tableInsert (name : Reg) (mustUndo : Bool) (s : State Reg) :
    Option (State Reg) :=
  match s.find name with
  | some _ => some s
  | none =>
      let s := { s with
        qregs := { name := name, string := .init, mustUndo := mustUndo
                   external := false } :: s.qregs }
      if mustUndo then some (s.push (.tableRemove name)) else some s

/-- `teco_qreg_free()` of a register and its removal from the table. -/
def tableRemove (name : Reg) (s : State Reg) : Option (State Reg) := do
  let qreg <- s.find name
  let s <- s.docScintillaRelease qreg.string.doc
  some { s with qregs := s.qregs.eraseP (fun qreg => qreg.name = name) }

/-- `teco_qreg_table_empty()` removes the registers of a macro.  The one which is
edited cannot be discarded. -/
def tableEmpty (name : Reg) (s : State Reg) : Option (State Reg) := do
  let qreg <- s.find name
  if qreg.mustUndo ∨ s.current = some name then some s
  else s.tableRemove name

/-!
## Running and discarding undo tokens
-/

/-- The action of a token, if it is run. -/
def runToken (token : Token Reg) (s : State Reg) : Option (State Reg) :=
  match token with
  | .document place value => do
      let ctx <- s.read place
      let s <- s.docScintillaRelease ctx.doc
      some (s.write place { ctx with doc := value })
  | .params place value => do
      let ctx <- s.read place
      some (s.write place { ctx with params := value })
  | .edit doc params => do
      let s <- s.setDocPointer doc
      some (s.setViewParams params)
  | .viewUndo => some s.viewUndo
  | .stackRemoveLast => s.stackRemoveLast
  | .stackEntry entry =>
      some { s with stack := s.stack ++ [entry] }
  | .tableRemove name => s.tableRemove name

/-- The action of a token, if it is merely discarded. -/
def discardToken (token : Token Reg) (s : State Reg) : Option (State Reg) :=
  match token with
  | .document _ value => s.docScintillaRelease value
  | .stackEntry entry => s.docScintillaRelease entry.doc
  | _ => some s

def runTokens : List (Token Reg) -> State Reg -> Option (State Reg)
  | [], s => some s
  | token :: tokens, s => do
      let s <- s.runToken token
      runTokens tokens s

def discardTokens : List (Token Reg) -> State Reg -> Option (State Reg)
  | [], s => some s
  | token :: tokens, s => do
      let s <- s.discardToken token
      discardTokens tokens s

/-- `teco_undo_pop()` of the latest character. -/
def undoPop (s : State Reg) : Option (State Reg) :=
  match s.undo with
  | [] => some s
  | tokens :: undo => runTokens tokens { s with undo := undo }

/-- `teco_undo_clear()`. -/
def undoClear (s : State Reg) : Option (State Reg) :=
  discardTokens s.undo.flatten { s with undo := [] }

end State

end Documents
end SciTECO
