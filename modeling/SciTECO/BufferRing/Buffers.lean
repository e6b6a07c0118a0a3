import SciTECO.Lib.TailQueue
import SciTECO.Strings

/-!
# The ring of buffers

The buffers are the entries of a tail queue.  Opening a buffer registers tokens
that remove and free it, and a closed buffer belongs to a token that inserts it
again.  This token does not know where the buffer has been: the buffer has kept
its links.

ED hooks that run at the end of a command are the commands behind it.  No hook
runs while a buffer is closed.  A computation has no result if it uses memory
that has been freed or a null pointer.
-/

namespace SciTECO
namespace BufferRing

open TailQueue

abbrev BufferId : Type := Nat

/-- `teco_buffer_t` without its links and its view. -/
structure Buffer where
  filename : Option String
  dirty : Bool
deriving DecidableEq, Repr

/-- `teco_interface_current_view`. -/
inductive View where
  | buffer (id : BufferId)
  | qregs
deriving DecidableEq, Repr

/-- A Q-Register that is edited.  Tokens about it are registered if it has
`must_undo`. -/
structure Register where
  name : String
  mustUndo : Bool
deriving DecidableEq, Repr

/-- Which document is edited: `teco_ring_current` and `teco_qreg_current`. -/
structure Focus where
  current : Option BufferId
  qregCurrent : Option Register
  shown : Option View
deriving DecidableEq, Repr

inductive Token where
  | qregCurrent (value : Option Register)
  | ringCurrent (value : Option BufferId)
  | showView (view : View)
  | infoUpdate (id : BufferId)
  | bufferFree (id : BufferId)
  | removeBuffer (id : BufferId)
  | reinsert (id : BufferId)
  | dirty (id : BufferId) (value : Bool)
  | filename (id : BufferId) (value : Option String)
deriving DecidableEq, Repr

/-- `heads` are the tokens of every position of the command line, and `len` the
number of positions that `teco_undo_heads` has. -/
structure State where
  links : Heap BufferId
  buffers : BufferId -> Option Buffer
  nextBuffer : BufferId
  focus : Focus
  /-- `allow_filename` -/
  allowFilename : Bool
  undoEnabled : Bool
  /-- `teco_cmdline.pc` -/
  pc : Nat
  heads : Nat -> List Token
  len : Nat

/-- What the file system says about a file that is opened: `resolved` is its
absolute path, and `failure` the error of `teco_view_load()`. -/
structure File where
  resolved : String
  regular : Bool
  failure : Option TecoError
deriving DecidableEq, Repr

/-- A call of `teco_view_save()`: whether a file name is given, the absolute
path of the file, and the error. -/
structure Saving where
  given : Bool
  resolved : String
  failure : Option TecoError
deriving DecidableEq, Repr

/-- What a function with a `GError` returns. -/
abbrev Result : Type := Option (Option TecoError × State)

def andThen (result : Result) (f : State -> Result) : Result := do
  let (error, s) <- result
  match error with
  | some error => some (some error, s)
  | none => f s

namespace State

/-!
## Undo tokens
-/

/-- `teco_undo_push_size()`. -/
def push (token : Token) (s : State) : Option State :=
  if s.undoEnabled then
    let len := max s.len (s.pc + 1)
    -- g_assert(teco_undo_heads->len == teco_cmdline.pc+1)
    if len = s.pc + 1 then
      some { s with
        len := len
        heads := Function.update s.heads s.pc (token :: s.heads s.pc) }
    else none
  else some s

/-- `teco_undo_ptr(teco_qreg_current)` and `teco_undo_ptr(teco_ring_current)`
are `push` with the present value. -/
def undoQRegCurrent (s : State) : Option State :=
  s.push (.qregCurrent s.focus.qregCurrent)

def undoRingCurrent (s : State) : Option State :=
  s.push (.ringCurrent s.focus.current)

/-!
## Buffers
-/

/-- `teco_buffer_new()`. -/
def bufferNew (s : State) : State :=
  { s with
    links := alloc s.nextBuffer s.links
    buffers := Function.update s.buffers s.nextBuffer
      (some { filename := none, dirty := false })
    nextBuffer := s.nextBuffer + 1 }

def bufferFree (id : BufferId) (s : State) : Option State := do
  let _ <- s.buffers id
  some { s with
    links := free id s.links
    buffers := Function.update s.buffers id none }

def setBuffer (id : BufferId) (buffer : Buffer) (s : State) : State :=
  { s with buffers := Function.update s.buffers id (some buffer) }

def bufferSetFilename (id : BufferId) (resolved : Option String) (s : State) :
    Option State := do
  let buffer <- s.buffers id
  some (s.setBuffer id { buffer with filename := resolved })

def bufferSetDirty (id : BufferId) (dirty : Bool) (s : State) :
    Option State := do
  let buffer <- s.buffers id
  some (s.setBuffer id { buffer with dirty := dirty })

/-- `teco_buffer_edit()`. -/
def bufferEdit (id : BufferId) (s : State) : Option State := do
  let _ <- s.buffers id
  some { s with focus := { s.focus with shown := some (.buffer id) } }

def bufferUndoEdit (id : BufferId) (s : State) : Option State := do
  let _ <- s.buffers id
  let s <- s.push (.infoUpdate id)
  s.push (.showView (.buffer id))

def bufferSave (id : BufferId) (saving : Saving) (s : State) : Result := do
  let buffer <- s.buffers id
  if ¬ saving.given ∧ buffer.filename = none then
    some (some (TecoError.failed
      "Cannot save the unnamed file without providing a file name"), s)
  else
    match saving.failure with
    | some error => some (some error, s)
    | none => do
        let s <-
          (if s.focus.current = some id ∧ s.focus.qregCurrent = none then
            s.push (.infoUpdate id)
          else some s)
        let s <- s.push (.dirty id buffer.dirty)
        let s <- s.bufferSetDirty id false
        let s <- s.push (.filename id buffer.filename)
        let s <- s.bufferSetFilename id (some saving.resolved)
        some (none, s)

/-!
## The ring
-/

/-- The loops over the ring. -/
def ringSearch (accept : Nat -> BufferId -> Option Bool) (s : State) :
    Option (Option (Nat × BufferId)) := do
  let first <- nextOf .head s.links
  search accept s.links s.nextBuffer 0 first

/-- `teco_ring_find_by_name()` of a resolved name. -/
def ringFindByName (resolved : Option String) (s : State) :
    Option (Option (Nat × BufferId)) :=
  s.ringSearch (fun _ id => do
    let buffer <- s.buffers id
    some (buffer.filename == resolved))

def ringFindById (number : Int) (s : State) :
    Option (Option (Nat × BufferId)) :=
  s.ringSearch (fun i _ => some (number - (i + 1 : Nat) == 0))

def ringUndoEdit (s : State) : Option State := do
  let s <- s.undoQRegCurrent
  let s <- s.undoRingCurrent
  let current <- s.focus.current
  s.bufferUndoEdit current

/-- `teco_current_doc_undo_edit()`, with `teco_qreg_plain_undo_edit()` of the
edited register. -/
def currentDocUndoEdit (s : State) : Option State :=
  match s.focus.qregCurrent with
  | none => s.ringUndoEdit
  | some qreg => do
      let s <- s.undoQRegCurrent
      if qreg.mustUndo then s.push (.showView .qregs) else some s

def ringUndoClose (s : State) : Option State := do
  let current <- s.focus.current
  let s <- s.push (.bufferFree current)
  s.push (.removeBuffer current)

/-- Edit a buffer of the ring. -/
def ringSelect (id : BufferId) (s : State) : Option State :=
  bufferEdit id
    { s with
      focus := { s.focus with current := some id, qregCurrent := none } }

/-- The last part of `teco_ring_edit_by_name()`. -/
def ringLoad (file : Option File) (id : BufferId) (s : State) : Result :=
  match file with
  | none => do
      let s <- s.bufferSetFilename id none
      some (none, s)
  | some file =>
      if file.regular ∧ file.failure ≠ none then
        some (file.failure, s)
      else do
        let s <- s.bufferSetFilename id (some file.resolved)
        some (none, s)

/-- The second part of `teco_ring_edit_by_name()`. -/
def ringAdd (file : Option File) (s : State) : Result := do
  let id := s.nextBuffer
  let s := s.bufferNew
  let links <- insertTail id s.links
  let s := { s with
    links := links
    focus := { s.focus with current := some id, qregCurrent := none } }
  let s <- s.ringUndoClose
  let s <- s.bufferEdit id
  s.ringLoad file id

def ringEditByName (file : Option File) (s : State) : Result := do
  let found <- s.ringFindByName (file.map File.resolved)
  match found with
  | some (_, id) => do
      let s <- s.ringSelect id
      some (none, s)
  | none => s.ringAdd file

def invalidBuffer (number : Int) : TecoError :=
  { code := ErrorCode.invalidBuf
    message := "Invalid buffer id " ++ toString number }

def ringEditById (number : Int) (s : State) : Result := do
  let found <- s.ringFindById number
  match found with
  | none => some (some (invalidBuffer number), s)
  | some (_, id) => do
      let s <- s.ringSelect id
      some (none, s)

def ringRemoveBuffer (id : BufferId) (s : State) : Option State := do
  let links <- remove id s.links
  let _ <- s.buffers id
  some { s with links := links }

/-- `teco_undo_ring_reinsert()`. -/
def undoRingReinsert (id : BufferId) (s : State) : Option State :=
  if s.undoEnabled then s.push (.reinsert id) else s.bufferFree id

/-- The buffer that is edited instead of one that has been removed. -/
def ringNeighbour (id : BufferId) (s : State) : Option (Option BufferId) := do
  let next <- nextOf (.entry id) s.links
  match next with
  | some next => some (some next)
  | none => entryBefore (.entry id) s.links

def ringClose (id : BufferId) (s : State) : Result :=
  if s.focus.current = some id then do
    let s <- s.ringUndoEdit
    let s <- s.ringRemoveBuffer id
    let neighbour <- s.ringNeighbour id
    let s := { s with focus := { s.focus with current := neighbour } }
    andThen
      (match neighbour with
      | none => s.ringEditByName none
      | some neighbour => do
          let s <- s.bufferEdit neighbour
          some (none, s))
      (fun s => do
        let s <- s.undoRingReinsert id
        some (none, s))
  else do
    let s <- s.ringRemoveBuffer id
    let s <- s.undoRingReinsert id
    some (none, s)

def ringDirtify (s : State) : Option State :=
  match s.focus.qregCurrent with
  | some _ => some s
  | none => do
      let current <- s.focus.current
      let buffer <- s.buffers current
      if buffer.dirty then some s
      else do
        let s <- s.push (.infoUpdate current)
        let s <- s.push (.dirty current buffer.dirty)
        s.bufferSetDirty current true

/-!
## Commands
-/

/-- The buffer that an argument selects. -/
def ringFind (number : Int) (s : State)
    (f : BufferId -> State -> Result) : Result := do
  let found <- s.ringFindById number
  match found with
  | none => some (some (invalidBuffer number), s)
  | some (_, id) => f id s

/-- `teco_current_doc_undo_edit()` and `teco_ring_edit()`. -/
def editFile (file : Option File) (s : State) : Result := do
  let s <- s.currentDocUndoEdit
  s.ringEditByName file

def editId (number : Int) (s : State) : Result := do
  let s <- s.currentDocUndoEdit
  s.ringEditById number

/-- `teco_state_edit_file_initial()`.  The popup of `0EB` has no effect. -/
def editFileInitial (number : Int) (s : State) : Result :=
  if number > 0 then
    editId number { s with allowFilename := false }
  else some (none, { s with allowFilename := true })

/-- `teco_state_edit_file_done()` with a file name that is no pattern. -/
def editFileDone (empty : Bool) (file : Option File) (s : State) : Result :=
  if s.allowFilename then s.editFile file
  else if empty then some (none, s)
  else some (some (TecoError.failed ("If a buffer is selected by id, " ++
    "the <EB> string argument must be empty")), s)

def qregEdited (qreg : Register) : TecoError :=
  TecoError.failed ("Q-Register \"" ++ qreg.name ++ "\" currently edited")

def bufferDirty (buffer : Buffer) : TecoError :=
  TecoError.failed
    ("Buffer \"" ++ buffer.filename.getD "(Unnamed)" ++ "\" is dirty")

/-- The end of `teco_state_ecommand_close()`. -/
def closeBuffer (force colon : Bool) (saving : Saving) (id : BufferId)
    (s : State) : Result :=
  if colon then
    andThen (s.bufferSave id { saving with given := false })
      (fun s => s.ringClose id)
  else do
    let buffer <- s.buffers id
    if ¬ force ∧ buffer.dirty then some (some (bufferDirty buffer), s)
    else s.ringClose id

/-- `teco_state_ecommand_close()`.  `minus` tells whether the sign prefix is
set. -/
def ecommandClose (number : Option Int) (minus colon : Bool) (saving : Saving)
    (s : State) : Result :=
  match number with
  | some number =>
      s.ringFind number.natAbs
        (closeBuffer (decide (number < 0)) colon saving)
  | none =>
      match s.focus.qregCurrent with
      | some qreg => some (some (qregEdited qreg), s)
      | none => do
          let current <- s.focus.current
          closeBuffer minus colon saving current s

/-- `teco_state_save_file_done()`.  `register` is the error of saving the edited
register. -/
def saveFileDone (number : Option Int) (saving : Saving)
    (register : Option TecoError) (s : State) : Result :=
  match number with
  | some number => s.ringFind number (fun id s => s.bufferSave id saving)
  | none =>
      match s.focus.qregCurrent with
      | some _ => some (register, s)
      | none => do
          let current <- s.focus.current
          s.bufferSave current saving

/-- `EQ`, where `failure` is the error of the `edit` method. -/
def editQReg (qreg : Register) (failure : Option TecoError) (s : State) :
    Result := do
  let s <- s.currentDocUndoEdit
  match failure with
  | some error => some (some error, s)
  | none =>
      some (none,
        { s with
          focus := { s.focus with
            qregCurrent := some qreg, shown := some .qregs } })

end State

/-- What a command does to the ring. -/
inductive Command where
  | editFileInitial (number : Int)
  | editFileDone (empty : Bool) (file : Option File)
  /-- A match of a pattern, or a help topic. -/
  | editFile (file : Option File)
  /-- `U*` -/
  | editId (number : Int)
  | close (number : Option Int) (minus colon : Bool) (saving : Saving)
  | save (number : Option Int) (saving : Saving) (register : Option TecoError)
  | dirtify
  | editQReg (qreg : Register) (failure : Option TecoError)
  /-- Any other command fails. -/
  | fail (error : TecoError)
deriving Repr

open State

def exec (command : Command) (s : State) : Result :=
  match command with
  | .editFileInitial number => s.editFileInitial number
  | .editFileDone empty file => s.editFileDone empty file
  | .editFile file => s.editFile file
  | .editId number => s.editId number
  | .close number minus colon saving =>
      s.ecommandClose number minus colon saving
  | .save number saving register => s.saveFileDone number saving register
  | .dirtify => do
      let s <- s.ringDirtify
      some (none, s)
  | .editQReg qreg failure => s.editQReg qreg failure
  | .fail error => some (some error, s)

def execAll : List Command -> State -> Result
  | [], s => some (none, s)
  | command :: commands, s => andThen (exec command s) (execAll commands)

namespace State

/-!
## Running and discarding undo tokens
-/

/-- `teco_undo_ring_reinsert_action()`, if it is run. -/
def ringReinsert (id : BufferId) (s : State) : Option State := do
  let next <- nextOf (.entry id) s.links
  let links <-
    (match next with
    | some next => insertBefore next id s.links
    | none => insertTail id s.links)
  some { s with links := links }

def runToken (token : Token) (s : State) : Option State :=
  match token with
  | .qregCurrent value =>
      some { s with focus := { s.focus with qregCurrent := value } }
  | .ringCurrent value =>
      some { s with focus := { s.focus with current := value } }
  | .showView (.buffer id) => s.bufferEdit id
  | .showView .qregs =>
      some { s with focus := { s.focus with shown := some .qregs } }
  | .infoUpdate id => do
      let _ <- s.buffers id
      some s
  | .bufferFree id => s.bufferFree id
  | .removeBuffer id => s.ringRemoveBuffer id
  | .reinsert id => s.ringReinsert id
  | .dirty id value => s.bufferSetDirty id value
  | .filename id value => s.bufferSetFilename id value

def discardToken (token : Token) (s : State) : Option State :=
  match token with
  | .reinsert id => s.bufferFree id
  | _ => some s

def runTokens : List Token -> State -> Option State
  | [], s => some s
  | token :: tokens, s => do
      let s <- s.runToken token
      runTokens tokens s

def discardTokens : List Token -> State -> Option State
  | [], s => some s
  | token :: tokens, s => do
      let s <- s.discardToken token
      discardTokens tokens s

/-- Take the last position off `teco_undo_heads`. -/
def removeHead (i : Nat) (s : State) : State :=
  { s with heads := Function.update s.heads i [], len := i }

/-- `teco_undo_pop()` where `len` positions are left. -/
def undoPopFrom (pc : Nat) : Nat -> State -> Option State
  | 0, s => some s
  | i + 1, s =>
      if pc ≤ i then do
        let s <- runTokens (s.heads i) (s.removeHead i)
        undoPopFrom pc i s
      else some s

def undoPop (pc : Nat) (s : State) : Option State := undoPopFrom pc s.len s

/-- `teco_undo_clear()` where `len` positions are left. -/
def undoClearFrom : Nat -> State -> Option State
  | 0, s => some s
  | i + 1, s => do
      let s <- discardTokens (s.heads i) (s.removeHead i)
      undoClearFrom i s

def undoClear (s : State) : Option State := undoClearFrom s.len s

end State

/-!
## Runs
-/

/-- Before the first buffer is opened. -/
def blank : State :=
  { links := empty
    buffers := fun _ => none
    nextBuffer := 0
    focus := { current := none, qregCurrent := none, shown := none }
    allowFilename := false
    undoEnabled := false
    pc := 0
    heads := fun _ => []
    len := 0 }

/-- What happens in interactive mode. -/
inductive Event where
  /-- The next character of the command line is executed. -/
  | type (commands : List Command)
  /-- The command line is rubbed out to a position. -/
  | rubout (pc : Nat)
  /-- The command line is terminated. -/
  | terminate
deriving Repr

/-- The effects of a character are taken back if it fails. -/
def step (event : Event) (s : State) : Option State :=
  match event with
  | .type commands => do
      let (error, s) <- execAll commands s
      match error with
      | none => some { s with pc := s.pc + 1 }
      | some _ => s.undoPop s.pc
  | .rubout pc =>
      if pc ≤ s.pc then State.undoPop pc { s with pc := pc } else some s
  | .terminate => do
      let s <- s.undoClear
      some { s with pc := 0 }

/-- `main()` opens an unnamed buffer and executes the profile.  Undo is enabled
in interactive mode. -/
def start (profile : List Command) : Result :=
  andThen (blank.ringEditByName none) (fun s =>
    andThen (execAll profile s) (fun s =>
      some (none, { s with undoEnabled := true })))

end BufferRing
end SciTECO
