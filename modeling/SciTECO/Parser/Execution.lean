import SciTECO.Parser.Commands

/-!
# Executing code

Dispatch to the callbacks of the current state, and the loops of `parser.c`
that feed a machine.
-/

namespace SciTECO
namespace Parser

open Undoable

variable {W Reg : Type}
variable (host : Host W Reg) (env : Env)

/-!
## Callbacks of a state
-/

section Callbacks

variable [DecidableEq Reg]

/-- `input_cb`. -/
def stateInput (state : MainState) (chr : Gunichar) :
    Exec (State W Reg) MainState :=
  match state with
  | .start => startInput host env chr
  | .fcommand => fcommandInput host env chr
  | .condcommand => condcommandInput host env chr
  | .control => controlInput host env chr
  | .ascii => asciiInput chr
  | .escape => escapeInput host env chr
  | .ctlc => ctlcInput host env chr
  | .ctlcControl => ctlcControlInput host env chr
  | .ecommand => ecommandInput host env chr
  | .label => labelInput env chr
  | .blockcomment => pure (blockcommentInput chr)
  | .blockcommentStar => pure (blockcommentStarInput chr)
  | .eolcomment => pure (eolcommentInput chr)
  | .printDecimal => printDecimalInput host env chr
  | .printOctal => printOctalInput host env chr
  | .expectqreg cmd => expectqregInput host env cmd chr
  | .expectstring cmd => expectstringInput host env cmd chr

/-- `initial_cb`. -/
def stateInitial (state : MainState) : Exec (State W Reg) Unit :=
  match state with
  | .ctlc => ctlcInitial env
  | .printDecimal => printInitial env 10
  | .printOctal => printInitial env 8
  | .expectqreg cmd => expectqregInitial env host cmd
  | .expectstring cmd => stringInitial host env cmd
  | _ => pure ()

/-- `refresh_cb`. -/
def stateRefresh (state : MainState) : Exec (State W Reg) Unit :=
  match state with
  | .expectstring cmd => expectstringRefresh host env cmd
  | _ => pure ()

/-- `end_of_macro_cb`.  The default one is `teco_state_end_of_macro()`. -/
def stateEndOfMacro (state : MainState) : Exec (State W Reg) Unit :=
  match state with
  | .start => pure ()
  | .ctlc => pure ()
  | .escape => onExpr Expressions.discardArgs
  | .printDecimal => printEndOfMacro env 10
  | .printOctal => printEndOfMacro env 8
  | _ =>
      throw
        { code := ErrorCode.syntaxError, message := "Unterminated command" }

/-- Enter a state. -/
def enterState (next : MainState) : Exec (State W Reg) Unit := do
  let s <- get
  if next = s.machine.current then
    pure ()
  else do
    undo env (State.mapMachine (fun m =>
      { m with current := s.machine.current }))
    modify (State.mapMachine (fun m => { m with current := next }))
    stateInitial host env next

/-- `teco_machine_input()` for the main machine. -/
def machineInput (chr : Gunichar) : Exec (State W Reg) Unit := do
  let s <- get
  let next <- stateInput host env s.machine.current chr
  enterState host env next

/-!
## Macros
-/

/-- Fetch and execute the next character of the macro. -/
def stepCharacter (macroText : Bytes) : Exec (State W Reg) Unit := do
  let s <- get
  match host.check s.editor with
  | some e => throw e
  | none => do
      let rest := macroText.drop s.machine.macroPc
      modify (State.mapMachine (fun m =>
        { m with macroPc := m.macroPc + utf8Skip (rest.headD 0) }))
      machineInput host env (utf8GetChar rest)

/-- `teco_machine_main_step()`. -/
def mainStep (macroText : Bytes) (stopPos : Nat) :
    Nat -> Exec (State W Reg) Unit
  | 0 => fault Fault.outOfFuel
  | fuel + 1 => do
      let s <- get
      if s.machine.macroPc < stopPos then do
        stepCharacter host env macroText
        mainStep macroText stopPos fuel
      else
        stateRefresh host env s.machine.current

/-- Return from a macro: close its braces and forget its loops. -/
def macroReturn (parentBraceLevel : Nat) : Exec (State W Reg) Unit := do
  let s <- get
  if s.machine.current ≠ MainState.start then
    fault Fault.assertion
  else do
    onExpr (Expressions.braceReturn parentBraceLevel s.returnArgs)
    modify (fun t => t.mapEditor (fun e =>
      { e with
        loopStack := e.loopStack.drop
          (e.loopStack.length - t.machine.loopStackFp) }))

/-- The loop of `teco_execute_macro()`, which continues behind a `:O` command
whose label is missing. -/
def macroLoop (macroText : Bytes) (parentBraceLevel : Nat) :
    Nat -> Exec (State W Reg) Unit
  | 0 => fault Fault.outOfFuel
  | fuel + 1 => do
      handle (mainStep host env macroText macroText.length fuel) (fun e =>
        if e.code = ErrorCode.returned then macroReturn parentBraceLevel
        else throw e)
      let s <- get
      match s.gotoBackupPc with
      | none => pure ()
      | some pc => do
          modify (State.mapMachine (fun m =>
            { m with macroPc := pc, current := MainState.start }))
          clearGotoSkipLabel
          setMode env Mode.normal
          modify (State.mapMachine (fun m => { m with gotoComplete := true }))
          macroLoop macroText parentBraceLevel fuel

/-- What `teco_execute_macro()` checks at the end of the macro. -/
def endOfMacro : Exec (State W Reg) Unit := do
  let s <- get
  if s.gotoSkipLabel ≠ [] then
    throw (TecoError.label s.gotoSkipLabel)
  else if s.editor.loopStack.length > s.machine.loopStackFp then
    throw (TecoError.failed "Unterminated loop")
  else
    stateEndOfMacro env s.machine.current

/-- `teco_execute_macro()` with a given table of local registers.  The machine
of the caller is kept aside. -/
def executeMacro (macroText : Bytes) (fuel : Nat) :
    Exec (State W Reg) Unit := do
  if validateUtf8 macroText.length macroText = false then
    throw
      { code := ErrorCode.codepoint
        message := "Invalid UTF-8 byte sequence in macro" }
  else do
    let caller <- get
    modify (fun s =>
      { s with
        machine := Machine.init s.editor.loopStack.length
          (host.defaultCodepage s.editor) })
    handle
      (ensuring
        (do
          macroLoop host env macroText caller.editor.expr.braceLevel fuel
          endOfMacro env)
        (modify (fun s => { s with machine := caller.machine })))
      (fun e => do
        modify (fun s => { s with gotoSkipLabel := [] })
        throw e)

end Callbacks

end Parser
end SciTECO
