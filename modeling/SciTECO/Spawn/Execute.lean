import SciTECO.Expressions.Stacks
import SciTECO.Lib.Frame
import SciTECO.Spawn.Output

/-!
# EC and EG

EG leaves its register in `register_argument` and goes on as EC does.  Both
check their arguments before the string argument is typed, and run the child
when it is complete.  A buffer is edited, so that the current document is none
of the registers.
-/

namespace SciTECO
namespace Spawn

open Eol Undoable

/-- The messages of Scintilla about positions in a document.  Lines that exist
have a position. -/
structure Scintilla where
  lineFromPosition : Bytes -> Int -> Int
  positionFromLine : Bytes -> Int -> Int
  lineCount : Bytes -> Int
  glyphs2bytes : Bytes -> Int -> Int
  positionFromLine_nonneg : forall {text : Bytes} {line : Int},
    0 <= line -> line < lineCount text -> 0 <= positionFromLine text line

/-- `teco_validate_line()`. -/
def Scintilla.validateLine (sci : Scintilla) (text : Bytes) (line : Int) :
    Bool :=
  decide (0 <= line ∧ line < sci.lineCount text)

/-- A `teco_qreg_t`. -/
structure Register (ρ : Type) where
  cell : ρ
  integer : TecoInt
  eolMode : LineEnd
deriving DecidableEq

/-- What EC and EG work on: the expression stacks, the colon modifier, the
current document, the registers, and the parts of `teco_spawn_ctx` that outlive
a command. -/
structure Editor (ρ : Type) where
  expressions : Expressions
  modifierColon : Nat
  text : Bytes
  dot : Nat
  registers : String -> Register ρ
  registerArgument : Option String
  fromPos : Int
  toPos : Int

/-- A child that has been started: what its output delivers, the results of
`teco_memory_check()` and the events of the main loop. -/
structure Child where
  stream : Stream
  memory : List (Option TecoError)
  events : List Event

/-- The messages of `g_spawn_check_wait_status()`. -/
def Failure.toError : Failure -> TecoError
  | .teco e => e
  | .exit code =>
      TecoError.failed s!"Child process exited with code {code}"
  | .killed => TecoError.failed "Child process killed by signal"

variable {ρ : Type}

namespace Editor

def expressionsPart : Lens (Editor ρ) Expressions where
  get := fun s => s.expressions
  set := fun e s => { s with expressions := e }

/-- `teco_machine_main_eval_colon()`. -/
def evalColon : Exec (Editor ρ) Nat := do
  let s <- get
  if s.modifierColon = 0 then
    pure 0
  else do
    emit (fun t => { t with modifierColon := s.modifierColon })
    modify (fun t => { t with modifierColon := 0 })
    pure s.modifierColon

/-- `teco_undo_ptr(teco_spawn_ctx.register_argument) = qreg`. -/
def setRegisterArgument (qreg : Option String) : Exec (Editor ρ) Unit := do
  let s <- get
  emit (fun t => { t with registerArgument := s.registerArgument })
  modify (fun t => { t with registerArgument := qreg })

/-- `teco_state_egcommand_got_register()`. -/
def egcommandGotRegister (qreg : String) : Exec (Editor ρ) Unit :=
  setRegisterArgument (some qreg)

/-- Pipe and replace a line range. -/
def executeLines (sci : Scintilla) : Exec (Editor ρ) Bool := do
  modify (fun t => { t with fromPos := t.dot })
  let s <- get
  let count <- zoom expressionsPart
    (Expressions.popNumCalc (BitVec.ofInt 64 s.expressions.numSign))
  let line :=
    (count + BitVec.ofInt 64 (sci.lineFromPosition s.text s.dot)).toInt
  modify (fun t => { t with toPos := sci.positionFromLine s.text line })
  modify (fun t =>
    if t.toPos < t.fromPos then
      { t with fromPos := t.toPos, toPos := t.fromPos }
    else
      t)
  pure (sci.validateLine s.text line)

/-- Pipe and replace a character range. -/
def executeRange (sci : Scintilla) : Exec (Editor ρ) Bool := do
  let s <- get
  let last <- zoom expressionsPart (Expressions.popNum 0)
  let first <- zoom expressionsPart (Expressions.popNum 0)
  let toPos := sci.glyphs2bytes s.text last.toInt
  let fromPos := sci.glyphs2bytes s.text first.toInt
  modify (fun t => { t with fromPos := fromPos, toPos := toPos })
  pure (decide (fromPos <= toPos ∧ fromPos >= 0 ∧ toPos >= 0))

/-- The arguments of `teco_state_execute_initial()`. -/
def executeArgs (sci : Scintilla) : Exec (Editor ρ) Bool := do
  zoom expressionsPart (Expressions.eval false)
  let s <- get
  if s.expressions.args = 0 then
    if s.expressions.numSign > 0 then do
      -- pipe nothing, insert at dot
      modify (fun t => { t with fromPos := t.dot, toPos := t.dot })
      pure true
    else
      executeLines sci
  else if s.expressions.args = 1 then
    executeLines sci
  else
    executeRange sci

/-- `teco_error_range_set(error, "EC")`. -/
def rangeError : TecoError :=
  { code := ErrorCode.range, message := "Invalid range specified for <EC>" }

/-- `teco_state_execute_initial()`. -/
def executeInitial (sci : Scintilla) : Exec (Editor ρ) Unit := do
  let valid <- executeArgs sci
  if valid then
    pure ()
  else do
    let colon <- evalColon
    if colon = 0 then
      throw rangeError
    else do
      zoom expressionsPart
        (Expressions.pushInt (BitVec.ofInt 64 tecoFailure))
      -- done() will still be called
      modify (fun t => { t with fromPos := -1, toPos := -1 })

/-- Where `register_argument` sends the output. -/
def output (s : Editor ρ) : Output ρ :=
  match s.registerArgument with
  | none => .document []
  | some qreg => .register (s.registers qreg).cell

def vtableOf (vtable : String -> VTable ρ) (s : Editor ρ) : VTable ρ :=
  vtable (s.registerArgument.getD "")

/-- Text is inserted behind the range, which is removed in the end. -/
def replace (added : Bytes) (s : Editor ρ) : Editor ρ :=
  { s with
    text := s.text.take s.fromPos.toNat ++ added ++ s.text.drop s.toPos.toNat
    dot := s.fromPos.toNat + added.length }

/-- Write the string of a register, and its EOL mode if there was a line
end. -/
def setRegister (qreg : String) (cell : ρ) (style : Option LineEnd)
    (s : Editor ρ) : Editor ρ :=
  { s with
    registers := fun name =>
      if name = qreg then
        { s.registers qreg with
          cell := cell
          eolMode := style.getD (s.registers qreg).eolMode }
      else
        s.registers name }

/-- What the callbacks have done to the target. -/
def writeOutput (ctx : Context ρ) : Exec (Editor ρ) Unit := do
  let s <- get
  match s.registerArgument, ctx.output with
  | none, .document added => modify (replace added)
  | some qreg, .register cell =>
      modify (setRegister qreg cell ctx.reader.eolStyle)
  | _, _ => fault Fault.assertion

/-- The part of `teco_state_execute_done()` from the main loop on. -/
def runChild (vtable : String -> VTable ρ) (fuel : Nat) (child : Child) :
    Exec (Editor ρ) (Option Failure × Int) := do
  let s <- get
  match mainLoop (s.vtableOf vtable) fuel child.events
    (Context.start child.stream s.output child.memory) with
  | none => fault Fault.outOfFuel
  | some ctx => do
      writeOutput ctx
      pure (ctx.error, ctx.rc)

/-- What is run for a complete string argument.  `spawn` is the child, or the
error of one of the steps up to `g_spawn_async_with_pipes()`. -/
def spawnChild (vtable : String -> VTable ρ) (fuel : Nat) (str : Bytes)
    (spawn : Except TecoError Child) :
    Exec (Editor ρ) (Option Failure × Int) :=
  if str = [] ∨ 0 ∈ str then
    pure (some (.teco (TecoError.failed
      "Command line must not be empty or contain null-bytes")), tecoFailure)
  else
    match spawn with
    | .error e => pure (some (.teco e), tecoFailure)
    | .ok child => runChild vtable fuel child

/-- The boolean that is returned if the command is colon-modified, or the
error. -/
def executeResult (colon : Nat) (rc : Int) :
    Option Failure -> Exec (Editor ρ) Unit
  | none =>
      if colon > 0 then
        zoom expressionsPart
          (Expressions.pushInt (BitVec.ofInt 64 tecoSuccess))
      else
        pure ()
  | some e =>
      if colon = 0 then
        throw e.toError
      else
        -- may contain the exit status
        zoom expressionsPart (Expressions.pushInt (BitVec.ofInt 64 rc))

/-- `teco_state_execute_done()`. -/
def executeDone (vtable : String -> VTable ρ) (fuel : Nat) (str : Bytes)
    (spawn : Except TecoError Child) : Exec (Editor ρ) Unit := do
  let s <- get
  if s.fromPos < 0 then
    -- executeInitial failed without throwing an error (colon-modified)
    pure ()
  else do
    let (error, rc) <- spawnChild vtable fuel str spawn
    let colon <- evalColon
    executeResult colon rc error
    setRegisterArgument none

end Editor

/-- A command with what has been typed in front of it, its string argument and
what becomes of the child.  `register` is that of EG. -/
structure Command where
  register : Option String
  expressions : Expressions
  modifierColon : Nat
  str : Bytes
  spawn : Except TecoError Child

namespace Command

/-- The arguments and modifiers have been typed. -/
def typed (c : Command) (s : Editor ρ) : Editor ρ :=
  { s with expressions := c.expressions, modifierColon := c.modifierColon }

/-- Up to the string argument. -/
def begin (c : Command) : Exec (Editor ρ) Unit := do
  modify c.typed
  match c.register with
  | none => pure ()
  | some qreg => Editor.egcommandGotRegister qreg

def run (sci : Scintilla) (vtable : String -> VTable ρ) (fuel : Nat)
    (c : Command) : Exec (Editor ρ) Unit := do
  c.begin
  Editor.executeInitial sci
  Editor.executeDone vtable fuel c.str c.spawn

end Command

end Spawn
end SciTECO
