import SciTECO.Parser.Machine

/-!
# String arguments and Q-Register arguments

The states which collect an argument.  Every callback of such a state decides
on its own what it does in the parse-only modes.
-/

namespace SciTECO
namespace Parser

open Undoable
open QReg (Table)

variable {W Reg : Type} (host : Host W Reg) (env : Env)

def getMode : Exec (State W Reg) Mode := do
  let s <- get
  pure s.mode

/-!
## Labels
-/

/-- `teco_goto_table_find()`. -/
def gotoTableFind (table : List (Bytes × Nat)) (name : Bytes) : Option Nat :=
  table.lookup name

/-- The comma-separated label which an index selects.  There is no label for an
index out of range. -/
def selectLabel (str : Bytes) (value : TecoInt) : Bytes :=
  if value.slt 0 then []
  else ((str.splitOn ','.toUInt8)[value.toNat]?).getD []

/-- Leave the search for a label. -/
def clearGotoSkipLabel : Exec (State W Reg) Unit := do
  let s <- get
  emit (fun t => { t with gotoSkipLabel := s.gotoSkipLabel })
  modify (fun t => { t with gotoSkipLabel := [] })
  emit (fun t => { t with gotoBackupPc := s.gotoBackupPc })
  modify (fun t => { t with gotoBackupPc := none })

/-- Continue after a label, or skip code until it is defined. -/
def gotoLabel (label : Bytes) (colonModified : Bool) :
    Exec (State W Reg) Unit := do
  let s <- get
  match gotoTableFind s.machine.gotoTable label with
  | some pc => modify (State.mapMachine (fun m => { m with macroPc := pc }))
  | none =>
      if s.machine.gotoComplete then
        if colonModified then
          pure ()
        else
          throw (TecoError.label s.gotoSkipLabel)
      else if s.gotoSkipLabel ≠ [] then
        fault Fault.assertion
      else do
        emit (fun t => { t with gotoSkipLabel := t.gotoSkipLabel.take 0 })
        modify (fun t => { t with gotoSkipLabel := label })
        emit (fun t => { t with gotoBackupPc := s.gotoBackupPc })
        modify (fun t =>
          { t with
            gotoBackupPc :=
              if colonModified then some s.machine.macroPc else none })
        setMode env Mode.parseOnlyGoto

/-- `teco_state_goto_done()` in normal mode. -/
def gotoDone (str : Bytes) : Exec (State W Reg) Unit := do
  if str = [] then
    throw (TecoError.failed "No labels given for <O>")
  else do
    let value <- onExpr (Expressions.popNumCalc 0)
    let colon <- evalColon env
    let label := selectLabel str value
    if label = [] then
      pure ()
    else
      gotoLabel env label (0 < colon)

/-!
## Callbacks of string arguments
-/

/-- `teco_machine_stringbuilding_set_codepage()`. -/
def setCodepage (codepage : Nat) : Exec (State W Reg) Unit :=
  zoom sbLens (do
    let core <- getCore
    undoCore env (fun c => { c with codepage := core.codepage })
    modifyCore (fun c => { c with codepage := codepage }))

def setEscapeChar (chr : Gunichar) : Exec (State W Reg) Unit :=
  zoom sbLens (do
    let core <- getCore
    undoCore env (fun c => { c with escapeChar := core.escapeChar })
    modifyCore (fun c => { c with escapeChar := chr }))

/-- `teco_state_print_string_initial()`.  The code page for a colon is
`SC_CHARSET_ANSI`. -/
def printStringInitial : Exec (State W Reg) Unit := do
  setEscapeChar env (ctlKey 'A'.toNat)
  let mode <- getMode
  if mode ≠ Mode.normal then
    pure ()
  else do
    let colon <- evalColon env
    let s <- get
    setCodepage env
      (if colon ≠ 0 then 0 else host.defaultCodepage s.editor)

/-- The initial callbacks of the host do nothing in parse-only mode. -/
def hostStringInitial (cmd : StringCommand) : Exec (State W Reg) Unit := do
  let mode <- getMode
  if mode ≠ Mode.normal then
    pure ()
  else do
    let s <- get
    let codepage <- onHost (host.stringCodepage cmd env
      (s.machine.expectqreg.bind (fun spec => spec.core.result)))
    match codepage with
    | some codepage => setCodepage env codepage
    | none => pure ()
    onHost (host.stringInitial cmd env)

/-- The `initial_cb` of a state with a string argument.  The default one is
`teco_state_expectstring_initial()`. -/
def stringInitial (cmd : StringCommand) : Exec (State W Reg) Unit := do
  match cmd with
  | .printString => printStringInitial host env
  | .replaceDefaultInsert => pure ()
  | cmd =>
      if cmd.hasInitial then
        hostStringInitial host env cmd
      else do
        let s <- get
        if s.mode = Mode.normal then
          setCodepage env (host.defaultCodepage s.editor)
        else
          pure ()

/-- `teco_state_expectfile_process()`. -/
def expectfileProcess (str : Bytes) (newChars : Nat) :
    Exec (State W Reg) Unit :=
  if str = [] then
    fault Fault.assertion
  else if (0 : UInt8) ∈ str.drop (str.length - newChars) then
    throw (TecoError.failed "Null-character not allowed in filenames")
  else
    pure ()

/-- The `process_cb` of a state, which does not look at the mode. -/
def stringProcess (cmd : StringCommand) : Exec (State W Reg) Unit := do
  let s <- get
  let str := s.machine.expectstring.string
  let newChars := s.machine.expectstring.insertLen
  if newChars = 0 then
    pure ()
  else if cmd.isFile then
    expectfileProcess str newChars
  else if cmd.isInteractive then
    onHost (host.stringProcess cmd env
      s.machine.expectstring.machine.core.codepage str newChars)
  else
    pure ()

/-- Whether the last search has succeeded. -/
def searchSucceeded : Exec (State W Reg) Bool := do
  let s <- get
  match host.find Table.globals (utf8 "_") s.editor with
  | none => fault Fault.assertion
  | some reg => do
      let searchState <- zoom editorLens (host.getInteger reg)
      pure (searchState.slt 0)

/-- A `done_cb` which does its work in normal mode only. -/
def hostStringDone (cmd : StringCommand) (qreg : Option (Option Reg × Table))
    (str : Bytes) : Exec (State W Reg) Unit := do
  let mode <- getMode
  if mode ≠ Mode.normal then
    pure ()
  else
    onHost (host.stringDone cmd env
      (qreg.bind (fun q => q.1.map (fun reg => (reg, q.2)))) str)

/-- The `done_cb` of the search and replace commands. -/
def replaceDone (cmd found notFound : StringCommand) (str : Bytes) :
    Exec (State W Reg) MainState := do
  let mode <- getMode
  if mode ≠ Mode.normal then
    pure (MainState.expectstring notFound)
  else do
    hostStringDone host env cmd none str
    let success <- searchSucceeded host
    pure (MainState.expectstring (if success then found else notFound))

/-- `teco_state_replace_default_all_done()`. -/
def replaceDefaultAllDone (str : Bytes) : Exec (State W Reg) MainState := do
  let next <- replaceDone host env .replaceDefaultAll .replaceDefaultInsert
    .replaceDefaultIgnore str
  let mode <- getMode
  if mode ≠ Mode.normal then
    pure next
  else do
    onHost (host.run .bufferHook env)
    pure next

/-- The `done_cb` of the commands which also have a Q-Register argument. -/
def qregStringDone (cmd : StringCommand) (str : Bytes) :
    Exec (State W Reg) MainState := do
  let qreg <- expectqregResults
  expectqregReset env
  hostStringDone host env cmd (some qreg) str
  pure MainState.start

/-- The `done_cb` of a state with a string argument. -/
def stringDone (cmd : StringCommand) (str : Bytes) :
    Exec (State W Reg) MainState := do
  match cmd with
  | .goto => do
      let mode <- getMode
      if mode ≠ Mode.normal then
        pure MainState.start
      else do
        gotoDone env str
        pure MainState.start
  | .printString => do
      interfaceMsg Severity.user str
      pure MainState.start
  | .replaceIgnore => pure MainState.start
  | .replaceDefaultIgnore =>
      if str = [] then
        pure MainState.start
      else do
        hostStringDone host env .replaceDefaultIgnore none str
        pure MainState.start
  | .replace =>
      replaceDone host env .replace .replaceInsert .replaceIgnore str
  | .replaceDefault =>
      replaceDone host env .replaceDefault .replaceDefaultInsert
        .replaceDefaultIgnore str
  | .replaceDefaultAll => replaceDefaultAllDone host env str
  | .globPattern => do
      hostStringDone host env .globPattern none str
      pure (MainState.expectstring .globFilename)
  | .scintillaSymbols => do
      hostStringDone host env .scintillaSymbols none str
      pure (MainState.expectstring .scintillaLparam)
  | .loadqreg => qregStringDone host env .loadqreg str
  | .saveqreg => qregStringDone host env .saveqreg str
  | .setqregstringNobuilding =>
      qregStringDone host env .setqregstringNobuilding str
  | .setqregstringBuilding =>
      qregStringDone host env .setqregstringBuilding str
  | cmd => do
      hostStringDone host env cmd none str
      pure MainState.start

/-!
## Reading a string argument
-/

/-- Count the braces, or look for the escape character. -/
def countNesting (chr : Gunichar) : Exec (State W Reg) Unit := do
  let s <- get
  let core := s.machine.expectstring.machine.core
  let change : Int :=
    if core.current ≠ SBState.start then 0
    else if core.escapeChar = '{'.toNat then
      if chr = '{'.toNat then 1 else if chr = '}'.toNat then -1 else 0
    else if host.glib.toUpper chr = core.escapeChar then -1
    else 0
  if change = 0 then
    pure ()
  else do
    undo env (State.mapString (fun e =>
      { e with nesting := s.machine.expectstring.nesting }))
    modify (State.mapString (fun e =>
      { e with nesting := e.nesting + change }))

/-- What follows `done_cb()`, even if it has failed: the state for the next
string argument. -/
def resetString (cmd : StringCommand) : Exec (State W Reg) Unit := do
  let s <- get
  let string := s.machine.expectstring.string
  let insertLen := s.machine.expectstring.insertLen
  undo env (State.mapString (fun e => { e with string := string }))
  modify (State.mapString (fun e => { e with string := [] }))
  if cmd.last then
    setEscapeChar env 0x1B
  else if s.machine.expectstring.machine.core.escapeChar = '{'.toNat then do
    undoFlags env
    modify (State.mapFlags (fun f => { f with modifierAt := true }))
  else
    pure ()
  modify (State.mapString (fun e => { e with nesting := 1 }))
  if cmd.stringBuilding then
    zoom sbLens (sbReset env)
  else
    pure ()
  undo env (State.mapString (fun e => { e with insertLen := insertLen }))
  modify (State.mapString (fun e => { e with insertLen := 0 }))

/-- The end of the string argument. -/
def finishString (cmd : StringCommand) : Exec (State W Reg) MainState := do
  stringProcess host env cmd
  let s <- get
  ensuring (stringDone host env cmd s.machine.expectstring.string)
    (resetString env cmd)

/-- Another character of the string argument. -/
def accumulateString (cmd : StringCommand) (chr : Gunichar) :
    Exec (State W Reg) MainState := do
  let s <- get
  let oldLen := s.machine.expectstring.string.length
  let normal := decide (s.mode = Mode.normal)
  if normal then
    undo env (State.mapString (fun e =>
      { e with string := e.string.take oldLen }))
  else
    pure ()
  let text <-
    if cmd.stringBuilding then
      zoom sbLens (sbInput host env normal chr)
    else
      pure (unicharToUtf8 chr)
  if normal then
    modify (State.mapString (fun e => { e with string := e.string ++ text }))
  else
    pure ()
  let s <- get
  undo env (State.mapString (fun e =>
    { e with insertLen := s.machine.expectstring.insertLen }))
  modify (State.mapString (fun e =>
    { e with insertLen := e.insertLen + (e.string.length - oldLen) }))
  pure (MainState.expectstring cmd)

/-- `teco_state_expectstring_input()`. -/
def expectstringInput (cmd : StringCommand) (chr : Gunichar) :
    Exec (State W Reg) MainState := do
  let s <- get
  if s.machine.flags.modifierAt ∧ isNoop chr then
    pure (MainState.expectstring cmd)
  else do
    let modifierAt <- evalAt env
    if modifierAt then do
      setEscapeChar env (host.glib.toUpper chr)
      pure (MainState.expectstring cmd)
    else do
      countNesting host env chr
      let s <- get
      if s.machine.expectstring.nesting = 0 then
        finishString host env cmd
      else
        accumulateString host env cmd chr

/-- `teco_state_expectstring_refresh()`. -/
def expectstringRefresh (cmd : StringCommand) : Exec (State W Reg) Unit := do
  let s <- get
  stringProcess host env cmd
  undo env (State.mapString (fun e =>
    { e with insertLen := s.machine.expectstring.insertLen }))
  modify (State.mapString (fun e => { e with insertLen := 0 }))

/-!
## Reading a Q-Register argument
-/

/-- A `got_register_cb` which works in normal mode only.  `reset` tells whether
the specification is not needed any more. -/
def hostGotRegister (cmd : QRegCommand) (qreg : Option Reg) (table : Table)
    (modifierAt : Bool) : Exec (State W Reg) Unit := do
  let mode <- getMode
  if mode ≠ Mode.normal then
    pure ()
  else
    onHost (host.gotRegister cmd env qreg table modifierAt)

/-- The `got_register_cb` of a state with a Q-Register argument. -/
def gotRegister (cmd : QRegCommand) (qreg : Option Reg) (table : Table) :
    Exec (State W Reg) MainState := do
  match cmd with
  | .eqcommand => pure (MainState.expectstring .loadqreg)
  | .epctcommand => pure (MainState.expectstring .saveqreg)
  | .ctlucommand => pure (MainState.expectstring .setqregstringNobuilding)
  | .eucommand => pure (MainState.expectstring .setqregstringBuilding)
  | .egcommand => do
      expectqregReset env
      hostGotRegister host env .egcommand qreg table false
      pure (MainState.expectstring .execute)
  | .copytoqreg => do
      expectqregReset env
      let modifierAt <- evalAt env
      hostGotRegister host env .copytoqreg qreg table modifierAt
      pure MainState.start
  | cmd => do
      expectqregReset env
      hostGotRegister host env cmd qreg table false
      pure MainState.start

/-- `teco_state_expectqreg_input()`. -/
def expectqregInput (cmd : QRegCommand) (chr : Gunichar) :
    Exec (State W Reg) MainState := do
  let s <- get
  match s.machine.expectqreg with
  | none => fault Fault.nullPointer
  | some spec => do
      let status <- zoom (expectqregLens spec)
        (qregSpecInput host env (s.mode = Mode.normal) chr)
      match status with
      | none => pure (MainState.expectqreg cmd)
      | some (qreg, table) => gotRegister host env cmd qreg table

end Parser
end SciTECO
