import SciTECO.Expressions.Commands
import SciTECO.Parser.StringBuilding

/-!
# The main machine

The state of a macro invocation, and the globals that the parser works on.
-/

namespace SciTECO
namespace Parser

open Undoable
open QReg (Table)

variable {W Reg : Type}

/-- `teco_mode_t`. -/
inductive Mode where
  | normal
  | parseOnlyGoto
  | parseOnlyLoop
  | parseOnlyCond
  | parseOnlyCondForce
  | lexing
deriving DecidableEq, Repr

/-- `teco_machine_main_flags_t`. -/
structure Flags where
  mode : Mode
  modifierColon : Nat
  modifierAt : Bool
deriving DecidableEq, Repr

/-- The states of the main machine. -/
inductive MainState where
  | start
  | fcommand
  | condcommand
  | control
  | ascii
  | escape
  | ctlc
  | ctlcControl
  | ecommand
  | label
  | blockcomment
  | blockcommentStar
  | eolcomment
  | printDecimal
  | printOctal
  | expectqreg (cmd : QRegCommand)
  | expectstring (cmd : StringCommand)
deriving DecidableEq, Repr

/-- `teco_machine_expectstring_t`. -/
structure ExpectString (Reg : Type) where
  string : Bytes
  insertLen : Nat
  nesting : Int
  machine : StringBuilding Reg
deriving DecidableEq, Repr

/-- `teco_machine_main_t`. -/
structure Machine (Reg : Type) where
  current : MainState
  macroPc : Nat
  flags : Flags
  nestLevel : Int
  loopStackFp : Nat
  gotoTable : List (Bytes × Nat)
  gotoComplete : Bool
  expectstring : ExpectString Reg
  expectqreg : Option (QRegSpec Reg)
  gotoLabel : Bytes
deriving DecidableEq, Repr

/-- A machine with the globals.  `isExecuting` is the static variable of
`stdio-commands.c`, `returnArgs` is `teco_error_return_args`. -/
structure State (W Reg : Type) where
  machine : Machine Reg
  editor : Editor W
  gotoSkipLabel : Bytes
  gotoBackupPc : Option Nat
  isExecuting : Bool
  returnArgs : Nat
deriving DecidableEq, Repr

/-- `teco_machine_main_init()`. -/
def Machine.init (loopStackFp codepage : Nat) : Machine Reg :=
  { current := MainState.start
    macroPc := 0
    flags :=
      { mode := Mode.normal, modifierColon := 0, modifierAt := false }
    nestLevel := 0
    loopStackFp := loopStackFp
    gotoTable := []
    gotoComplete := false
    expectstring :=
      { string := []
        insertLen := 0
        nesting := 1
        machine := StringBuilding.init 0x1B codepage }
    expectqreg := none
    gotoLabel := [] }

namespace State

def mode (s : State W Reg) : Mode := s.machine.flags.mode

def mapMachine (f : Machine Reg -> Machine Reg) (s : State W Reg) :
    State W Reg :=
  { s with machine := f s.machine }

def mapFlags (f : Flags -> Flags) (s : State W Reg) : State W Reg :=
  { s with machine := { s.machine with flags := f s.machine.flags } }

def mapString (f : ExpectString Reg -> ExpectString Reg)
    (s : State W Reg) : State W Reg :=
  { s with
    machine := { s.machine with expectstring := f s.machine.expectstring } }

def mapEditor (f : Editor W -> Editor W) (s : State W Reg) : State W Reg :=
  { s with editor := f s.editor }

end State

/-!
## Parts of the state
-/

def exprLens : Lens (State W Reg) Expressions :=
  { get := fun s => s.editor.expr
    set := fun e s => { s with editor := { s.editor with expr := e } } }

def editorLens : Lens (State W Reg) (Editor W) :=
  { get := fun s => s.editor, set := fun e s => { s with editor := e } }

/-- What a command of the host works on. -/
def commandLens : Lens (State W Reg) (Command W) :=
  { get := fun s =>
      { editor := s.editor, modifierColon := s.machine.flags.modifierColon }
    set := fun c s =>
      { s with
        editor := c.editor
        machine :=
          { s.machine with
            flags :=
              { s.machine.flags with modifierColon := c.modifierColon } } } }

def sbLens : Lens (State W Reg) (SBScope W Reg) :=
  { get := fun s => (s.machine.expectstring.machine, s.editor)
    set := fun t s =>
      { s with
        editor := t.2
        machine :=
          { s.machine with
            expectstring :=
              { s.machine.expectstring with machine := t.1 } } } }

def onExpr {α : Type} (m : Exec Expressions α) : Exec (State W Reg) α :=
  zoom exprLens m

def onHost {α : Type} (m : Exec (Command W) α) : Exec (State W Reg) α :=
  zoom commandLens m

/-- `teco_interface_msg()`. -/
def interfaceMsg (severity : Severity) (text : Bytes) :
    Exec (State W Reg) Unit :=
  modify (State.mapEditor (fun e =>
    { e with
      messages := { severity := severity, text := text } :: e.messages }))

/-!
## Flags
-/

section Helpers

variable (env : Env)

/-- `teco_undo_flags(ctx->flags)`. -/
def undoFlags : Exec (State W Reg) Unit := do
  let s <- get
  undo env (State.mapFlags (fun _ => s.machine.flags))

/-- Switch to a mode, which is undone with the other flags. -/
def setMode (mode : Mode) : Exec (State W Reg) Unit := do
  undoFlags env
  modify (State.mapFlags (fun f => { f with mode := mode }))

/-- `teco_machine_main_eval_colon()`. -/
def evalColon : Exec (State W Reg) Nat := do
  let s <- get
  if s.machine.flags.modifierColon = 0 then
    pure 0
  else do
    undoFlags env
    modify (State.mapFlags (fun f => { f with modifierColon := 0 }))
    pure s.machine.flags.modifierColon

/-- `teco_machine_main_eval_at()`. -/
def evalAt : Exec (State W Reg) Bool := do
  let s <- get
  if s.machine.flags.modifierAt then do
    undoFlags env
    modify (State.mapFlags (fun f => { f with modifierAt := false }))
    pure true
  else
    pure false

/-- `teco_undo_gint(ctx->nest_level)` and the change of the level. -/
def addNestLevel (change : Int) : Exec (State W Reg) Unit := do
  let s <- get
  undo env (State.mapMachine (fun m =>
    { m with nestLevel := s.machine.nestLevel }))
  modify (State.mapMachine (fun m =>
    { m with nestLevel := m.nestLevel + change }))

/-- Whether a modifier is pending that a command without modifiers rejects. -/
def unexpectedModifier (s : State W Reg) : Bool :=
  s.machine.flags.modifierAt ||
    (s.mode == Mode.normal && s.machine.flags.modifierColon != 0)

/-!
## Q-Register specifications
-/

/-- `teco_state_expectqreg_reset()`. -/
def expectqregReset : Exec (State W Reg) Unit := do
  let s <- get
  undo env (State.mapMachine (fun m =>
    { m with expectqreg := s.machine.expectqreg }))
  modify (State.mapMachine (fun m => { m with expectqreg := none }))

/-- Allocate a specification machine of a type. -/
def expectqregNew (host : Host W Reg) (type : QRegType) :
    Exec (State W Reg) Unit := do
  let s <- get
  modify (State.mapMachine (fun m =>
    { m with
      expectqreg :=
        some (QRegSpec.new type (host.defaultCodepage s.editor)) }))
  undo env (State.mapMachine (fun m => { m with expectqreg := none }))

/-- `teco_state_expectqreg_initial()` and `teco_state_queryqreg_initial()`. -/
def expectqregInitial (host : Host W Reg) (cmd : QRegCommand) :
    Exec (State W Reg) Unit := do
  let s <- get
  match cmd with
  | .queryqreg =>
      expectqregNew env host
        (if s.machine.flags.modifierColon ≠ 0 then QRegType.optional
        else QRegType.required)
  | _ => expectqregNew env host cmd.type

/-- `teco_machine_qregspec_get_results(ctx->expectqreg)`. -/
def expectqregResults : Exec (State W Reg) (Option Reg × Table) := do
  let s <- get
  match s.machine.expectqreg with
  | none => fault Fault.nullPointer
  | some spec => pure (spec.core.result, spec.core.resultTable)

/-- `ctx->expectqreg` with the editor. -/
def expectqregLens (spec : QRegSpec Reg) :
    Lens (State W Reg) (SpecScope W Reg) :=
  { get := fun s => (s.machine.expectqreg.getD spec, s.editor)
    set := fun t s =>
      { s with
        editor := t.2
        machine := { s.machine with expectqreg := some t.1 } } }

end Helpers

end Parser
end SciTECO
