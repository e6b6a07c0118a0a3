import SciTECO.Parser.StringArgument

/-!
# Commands

The transition tables of `core-commands.c` with their callbacks, and the states
that look ahead.  Table entries are for ASCII characters only.
-/

namespace SciTECO
namespace Parser

open Undoable
open QReg (Table)

variable {W Reg : Type}

/-!
## Transitions
-/

/-- `transition_cb`. -/
inductive Callback where
  | mul | div | plus | minus | and | or
  | braceOpen | braceClose | comma
  | negate | pow | mod | xor
  | loopOpen | loopClose | loopBreak
  | cmdlinePush | cmdlinePop
  | fcommandLoopStart | fcommandLoopEnd
  | fcommandCondEnd | fcommandCondElse
  | macrofileDeprecated
  | editor (cmd : EditorCommand)
deriving DecidableEq, Repr

/-- `teco_machine_main_transition_t`. -/
structure Transition where
  next : MainState
  callback : Option Callback := none
  modifierColon : Nat := 0
  modifierAt : Bool := false
deriving DecidableEq, Repr

/-- An entry for a command without arguments. -/
def simple (callback : Callback) (modifierColon : Nat := 0) : Transition :=
  { next := MainState.start
    callback := some callback
    modifierColon := modifierColon }

def qregEntry (cmd : QRegCommand) (modifierColon : Nat := 0)
    (modifierAt : Bool := false) : Transition :=
  { next := MainState.expectqreg cmd
    modifierColon := modifierColon
    modifierAt := modifierAt }

def stringEntry (cmd : StringCommand) (modifierColon : Nat := 0) :
    Transition :=
  { next := MainState.expectstring cmd
    modifierColon := modifierColon
    modifierAt := true }

/-- The table of `teco_state_start_input()`. -/
def startTransitions : Char -> Option Transition
  | '$' => some { next := .escape }
  | '!' => some { next := .label }
  | 'O' => some (stringEntry .goto 1)
  | '^' => some { next := .control, modifierAt := true, modifierColon := 2 }
  | 'F' => some { next := .fcommand, modifierAt := true, modifierColon := 2 }
  | '"' => some { next := .condcommand }
  | 'E' => some { next := .ecommand, modifierAt := true, modifierColon := 2 }
  | 'I' => some (stringEntry .insertPlain)
  | '?' => some (stringEntry .help)
  | 'S' => some (stringEntry .search 2)
  | 'N' => some (stringEntry .searchAll 1)
  | '[' => some (qregEntry .pushqreg)
  | ']' => some (qregEntry .popqreg 1)
  | 'G' => some (qregEntry .getqregstring 1)
  | 'Q' => some (qregEntry .queryqreg 1)
  | 'U' => some (qregEntry .setqreginteger 1 true)
  | '%' => some (qregEntry .increaseqreg)
  | 'M' => some (qregEntry .macroCall 1)
  | 'X' => some (qregEntry .copytoqreg 1 true)
  | '=' => some { next := .printDecimal, modifierColon := 1 }
  | '*' => some (simple .mul)
  | '/' => some (simple .div)
  | '+' => some (simple .plus)
  | '-' => some (simple .minus)
  | '&' => some (simple .and)
  | '#' => some (simple .or)
  | '(' => some (simple .braceOpen)
  | ')' => some (simple .braceClose)
  | ',' => some (simple .comma)
  | '.' => some (simple (.editor .dot))
  | 'Z' => some (simple (.editor .zed))
  | 'H' => some (simple (.editor .range))
  | '\\' => some (simple (.editor .backslash))
  | '<' => some (simple .loopOpen 1)
  | '>' => some (simple .loopClose 1)
  | ';' => some (simple .loopBreak 1)
  | '\x7b' => some (simple .cmdlinePush)
  | '\x7d' => some (simple .cmdlinePop)
  | 'J' => some (simple (.editor .jump) 1)
  | 'C' => some (simple (.editor .move) 1)
  | 'R' => some (simple (.editor .reverse) 1)
  | 'L' => some (simple (.editor .line) 1)
  | 'B' => some (simple (.editor .back) 1)
  | 'K' => some (simple (.editor .killLines) 1)
  | 'D' => some (simple (.editor .deleteChars) 1)
  | 'A' => some (simple (.editor .get))
  | 'T' => some (simple (.editor .typeout))
  | _ => none

/-- The table of `teco_state_fcommand_input()`. -/
def fcommandTransitions : Char -> Option Transition
  | 'K' => some (stringEntry .searchKill 1)
  | 'D' => some (stringEntry .searchDelete 2)
  | 'S' => some (stringEntry .replace 2)
  | 'R' => some (stringEntry .replaceDefault 2)
  | 'N' => some (stringEntry .replaceDefaultAll 1)
  | 'G' => some (stringEntry .changedir)
  | '<' => some (simple .fcommandLoopStart 1)
  | '>' => some (simple .fcommandLoopEnd 1)
  | '\'' => some (simple .fcommandCondEnd)
  | '|' => some (simple .fcommandCondElse)
  | _ => none

/-- The table of `teco_state_control_input()`. -/
def controlTransitions : Char -> Option Transition
  | 'I' => some (stringEntry .insertIndent)
  | 'U' => some (qregEntry .ctlucommand 1 true)
  | '^' => some { next := .ascii }
  | '[' => some { next := .escape }
  | 'C' => some { next := .ctlc }
  | 'A' => some (stringEntry .printString 1)
  | '_' => some (simple .negate)
  | '*' => some (simple .pow)
  | '/' => some (simple .mod)
  | '#' => some (simple .xor)
  | 'B' => some (simple (.editor .date))
  | 'H' => some (simple (.editor .time) 2)
  | 'O' => some (simple (.editor .octal))
  | 'D' => some (simple (.editor .decimal))
  | 'R' => some (simple (.editor .radix))
  | 'Q' => some (simple (.editor .lines2glyphs) 1)
  | 'E' => some (simple (.editor .glyphs2bytes) 1)
  | 'X' => some (simple (.editor .searchMode))
  | 'Y' => some (simple (.editor .lastRange))
  | 'S' => some (simple (.editor .lastLength))
  | 'T' => some (simple (.editor .typeoutGlyph) 1)
  | 'W' => some (simple (.editor .refresh))
  | _ => none

/-- The table of `teco_state_ecommand_input()`. -/
def ecommandTransitions : Char -> Option Transition
  | '%' => some (qregEntry .epctcommand 0 true)
  | 'B' => some (stringEntry .editFile)
  | 'C' => some (stringEntry .execute 1)
  | 'G' => some (qregEntry .egcommand 1 true)
  | 'I' => some (stringEntry .indirect 1)
  | 'M' =>
      some { stringEntry .indirect 1 with callback := some .macrofileDeprecated }
  | 'N' => some (stringEntry .globPattern 1)
  | 'S' => some (stringEntry .scintillaSymbols)
  | 'Q' => some (qregEntry .eqcommand 0 true)
  | 'U' => some (qregEntry .eucommand 1 true)
  | 'W' => some (stringEntry .saveFile)
  | 'R' => some (stringEntry .readFile)
  | 'F' => some (simple (.editor .close) 1)
  | 'D' => some (simple (.editor .flags))
  | 'J' => some (simple (.editor .properties))
  | 'L' => some (simple (.editor .eol) 1)
  | 'E' => some (simple (.editor .encoding) 1)
  | 'O' => some (simple (.editor .version))
  | 'X' => some (simple (.editor .exit) 1)
  | _ => none

section Callbacks

variable (host : Host W Reg) (env : Env)

/-!
## Loops

The undo tokens address the loop stack from the bottom.
-/

def insertLoop (index : Nat) (loop : LoopContext) (s : State W Reg) :
    State W Reg :=
  s.mapEditor (fun e =>
    { e with
      loopStack := e.loopStack.insertIdx (e.loopStack.length - index) loop })

/-- `g_array_remove_index()` refuses an index outside of the array. -/
def removeLoop (index : Nat) (s : State W Reg) : State W Reg :=
  s.mapEditor (fun e =>
    { e with
      loopStack :=
        if index < e.loopStack.length then
          e.loopStack.eraseIdx (e.loopStack.length - 1 - index)
        else
          e.loopStack })

def setLoopCounter (index : Nat) (counter : TecoInt) (s : State W Reg) :
    State W Reg :=
  s.mapEditor (fun e =>
    { e with
      loopStack := e.loopStack.modify (e.loopStack.length - 1 - index)
        (fun loop => { loop with counter := counter }) })

def setLoopStack (loops : List LoopContext) : Exec (State W Reg) Unit :=
  modify (State.mapEditor (fun e => { e with loopStack := loops }))

/-- The loops of this macro invocation, the innermost first. -/
def State.ownLoops (s : State W Reg) : List LoopContext :=
  s.editor.loopStack.take
    (s.editor.loopStack.length - s.machine.loopStackFp)

/-- `teco_state_start_loop_open()`. -/
def loopOpen : Exec (State W Reg) Unit := do
  let counter <- onExpr (Expressions.popNumCalc (-1))
  let s <- get
  let braceLevel := s.editor.expr.braceLevel
  let colon <- evalColon env
  let passThrough := decide (0 < colon)
  if counter ≠ 0 then do
    if passThrough then pure () else onExpr Expressions.braceOpen
    let s <- get
    let loop : LoopContext :=
      { counter := counter
        pc := s.machine.macroPc
        braceLevel := braceLevel
        passThrough := passThrough }
    setLoopStack (loop :: s.editor.loopStack)
    emit (removeLoop s.editor.loopStack.length)
  else
    setMode env Mode.parseOnlyLoop

/-- What the end of an iteration does to the arguments. -/
def loopCloseArgs (loop : LoopContext) (colonModified : Bool) :
    Exec (State W Reg) Unit :=
  if loop.passThrough then
    pure ()
  else if colonModified then do
    onExpr Expressions.braceClose
    if loop.counter ≠ 1 then onExpr Expressions.braceOpen else pure ()
  else do
    onExpr Expressions.discardArgs
    if loop.counter = 1 then onExpr Expressions.braceClose else pure ()

/-- `teco_state_start_loop_close()`. -/
def loopClose : Exec (State W Reg) Unit := do
  let s <- get
  match s.ownLoops with
  | [] =>
      throw (TecoError.failed
        "Loop end without corresponding loop start command")
  | loop :: _ =>
      if s.editor.expr.braceLevel ≠
          loop.braceLevel + (if loop.passThrough then 0 else 1) then
        throw (TecoError.failed "Brace left open at loop end command")
      else do
        let colon <- evalColon env
        loopCloseArgs loop (0 < colon)
        let s <- get
        let index := s.editor.loopStack.length - 1
        if loop.counter = 1 then do
          emit (insertLoop index loop)
          setLoopStack s.editor.loopStack.tail
        else do
          modify (State.mapMachine (fun m => { m with macroPc := loop.pc }))
          if loop.counter.slt 0 then
            pure ()
          else do
            undo env (setLoopCounter index loop.counter)
            modify (setLoopCounter index (loop.counter - 1))

/-- `teco_state_start_break()`. -/
def loopBreak : Exec (State W Reg) Unit := do
  let s <- get
  match s.ownLoops with
  | [] => throw (TecoError.failed "<;> only allowed in loops")
  | loop :: _ =>
      match host.find Table.globals (utf8 "_") s.editor with
      | none => fault Fault.assertion
      | some reg => do
          let v <- zoom editorLens (host.getInteger reg)
          let rc <- onExpr (Expressions.popNumCalc v)
          let colon <- evalColon env
          let rc := if 0 < colon then ~~~rc else rc
          if rc.slt 0 then
            pure ()
          else do
            let s <- get
            setLoopStack s.editor.loopStack.tail
            onExpr Expressions.discardArgs
            if loop.passThrough then
              pure ()
            else
              onExpr (Expressions.braceReturn loop.braceLevel 0)
            let s <- get
            emit (insertLoop s.editor.loopStack.length loop)
            setMode env Mode.parseOnlyLoop

/-!
## Returning
-/

/-- `TECO_ERROR_RETURN`. -/
def errorReturn : TecoError := { code := ErrorCode.returned, message := "" }

/-- Raise `TECO_ERROR_RETURN` with the current arguments. -/
def returnArguments : Exec (State W Reg) Unit := do
  modify (State.mapMachine (fun m => { m with current := MainState.start }))
  onExpr (Expressions.eval false)
  modify (fun s => { s with returnArgs := s.editor.expr.args })
  throw errorReturn

/-- `teco_return()`. -/
def tecoReturn : Exec (State W Reg) Unit := do
  let s <- get
  if s.mode ≠ Mode.normal then
    fault Fault.assertion
  else if env.isCmdline ∧
      (host.current s.editor).map host.name = some [0x1B] then
    throw (TecoError.failed
      ("Not allowed to terminate command-line while " ++
        "editing command-line replacement register"))
  else
    returnArguments

/-!
## Flow control commands
-/

/-- `teco_state_fcommand_loop_start()`. -/
def fcommandLoopStart : Exec (State W Reg) Unit := do
  let s <- get
  match s.ownLoops with
  | [] => do
      onExpr Expressions.discardArgs
      modify (State.mapMachine (fun m => { m with macroPc := 0 }))
  | loop :: _ => do
      let colon <- evalColon env
      if loop.passThrough then
        pure ()
      else if 0 < colon then do
        onExpr Expressions.braceClose
        onExpr Expressions.braceOpen
      else
        onExpr Expressions.discardArgs
      modify (State.mapMachine (fun m => { m with macroPc := loop.pc }))

/-- `teco_state_fcommand_loop_end()`. -/
def fcommandLoopEnd : Exec (State W Reg) Unit := do
  let s <- get
  match s.ownLoops with
  | [] => returnArguments
  | _ :: _ => do
      loopClose env
      let t <- get
      if t.editor.loopStack.length < s.editor.loopStack.length then
        setMode env Mode.parseOnlyLoop
      else
        pure ()

/-!
## Command line editing
-/

def undoDisabled : TecoError :=
  TecoError.failed "Command-line editing only possible in interactive mode"

/-- `TECO_ERROR_CMDLINE`. -/
def errorCmdline : TecoError := { code := ErrorCode.cmdline, message := "" }

/-- `teco_state_start_cmdline_push()`. -/
def cmdlinePush : Exec (State W Reg) Unit :=
  if env.undoEnabled then
    onHost (host.run .cmdlinePush env)
  else
    throw undoDisabled

variable [DecidableEq Reg]

/-- `teco_state_start_cmdline_pop()`. -/
def cmdlinePop : Exec (State W Reg) Unit := do
  let s <- get
  if env.undoEnabled = false then
    throw undoDisabled
  else if host.current s.editor ≠
      host.find Table.globals [0x1B] s.editor then
    throw (TecoError.failed
      ("Command-line replacement only allowed when " ++
        "editing the replacement register"))
  else
    throw errorCmdline

/-- `teco_state_control_negate()`. -/
def controlNegate : Exec (State W Reg) Unit := do
  onExpr (Expressions.eval false)
  let s <- get
  if s.editor.expr.args = 0 then
    throw (TecoError.argExpected "^_")
  else do
    let n <- onExpr (Expressions.popNum 0)
    onExpr (Expressions.pushInt (~~~n))

def runCallback : Callback -> Exec (State W Reg) Unit
  | .mul => onExpr Expressions.startMul
  | .div => onExpr Expressions.startDiv
  | .plus => onExpr Expressions.startPlus
  | .minus => onExpr Expressions.startMinus
  | .and => onExpr Expressions.startAnd
  | .or => onExpr Expressions.startOr
  | .braceOpen => onExpr Expressions.startBraceOpen
  | .braceClose => onExpr Expressions.startBraceClose
  | .comma => onExpr Expressions.startComma
  | .negate => controlNegate
  | .pow => onExpr Expressions.controlPow
  | .mod => onExpr Expressions.controlMod
  | .xor => onExpr Expressions.controlXor
  | .loopOpen => loopOpen env
  | .loopClose => loopClose env
  | .loopBreak => loopBreak host env
  | .cmdlinePush => cmdlinePush host env
  | .cmdlinePop => cmdlinePop host env
  | .fcommandLoopStart => fcommandLoopStart env
  | .fcommandLoopEnd => fcommandLoopEnd env
  | .fcommandCondEnd => setMode env Mode.parseOnlyCondForce
  | .fcommandCondElse => setMode env Mode.parseOnlyCond
  | .macrofileDeprecated =>
      interfaceMsg Severity.warning
        (utf8 "<EM> command is deprecated - use <EI> instead")
  | .editor cmd => onHost (host.run cmd env)

/-!
## State inputs
-/

/-- `teco_machine_main_transition_input()`. -/
def transitionInput (transitions : Char -> Option Transition)
    (chr : Gunichar) : Exec (State W Reg) MainState := do
  let s <- get
  match (ascii chr).bind transitions with
  | none => throw (TecoError.syntaxError chr)
  | some transition =>
      if (s.machine.flags.modifierAt ∧ transition.modifierAt = false) ∨
          (s.mode = Mode.normal ∧
            s.machine.flags.modifierColon > transition.modifierColon) then
        throw (TecoError.modifier chr)
      else
        match transition.callback with
        | some callback =>
            if s.mode = Mode.normal then do
              runCallback host env callback
              pure transition.next
            else
              pure transition.next
        | none => pure transition.next

/-- `teco_state_control_input()`. -/
def controlInput (chr : Gunichar) : Exec (State W Reg) MainState :=
  transitionInput host env controlTransitions (asciiToUpper chr)

def fcommandInput (chr : Gunichar) : Exec (State W Reg) MainState :=
  transitionInput host env fcommandTransitions (asciiToUpper chr)

def ecommandInput (chr : Gunichar) : Exec (State W Reg) MainState :=
  transitionInput host env ecommandTransitions (asciiToUpper chr)

/-- The commands which do nothing but reject modifiers: `action` is what they
do otherwise. -/
def unmodified (chr : Gunichar) (action : Exec (State W Reg) Unit) :
    Exec (State W Reg) MainState := do
  let s <- get
  if unexpectedModifier s then
    throw (TecoError.modifier chr)
  else do
    action
    pure MainState.start

/-- Append a digit, in normal mode. -/
def digit (chr : Gunichar) : Exec (State W Reg) Unit := do
  let s <- get
  if s.mode = Mode.normal then
    onExpr (Expressions.addDigit (host.radix env.locals s.editor) chr)
  else
    pure ()

/-- `|`. -/
def condElse : Exec (State W Reg) Unit := do
  let s <- get
  undoFlags env
  if s.mode = Mode.parseOnlyCond ∧ s.machine.nestLevel = 0 then
    modify (State.mapFlags (fun f => { f with mode := Mode.normal }))
  else if s.mode = Mode.normal then
    modify (State.mapFlags (fun f => { f with mode := Mode.parseOnlyCond }))
  else
    pure ()

/-- `'`. -/
def condEnd : Exec (State W Reg) Unit := do
  let s <- get
  if s.mode = Mode.parseOnlyCond ∨ s.mode = Mode.parseOnlyCondForce then
    if s.machine.nestLevel = 0 then
      setMode env Mode.normal
    else
      addNestLevel env (-1)
  else
    pure ()

/-- `<` and `>` while a loop is skipped. -/
def skipLoopOpen : Exec (State W Reg) MainState := do
  addNestLevel env 1
  pure MainState.start

def skipLoopClose : Exec (State W Reg) MainState := do
  let s <- get
  if s.machine.nestLevel = 0 then do
    setMode env Mode.normal
    pure MainState.start
  else do
    addNestLevel env (-1)
    pure MainState.start

/-- `teco_state_start_words()` and `teco_state_start_delete_words()`. -/
def wordCommand (cmd : Bool -> EditorCommand) : Exec (State W Reg) MainState := do
  let modifierAt <- evalAt env
  let mode <- getMode
  if mode ≠ Mode.normal then
    pure MainState.start
  else do
    onHost (host.run (cmd modifierAt) env)
    pure MainState.start

/-- `@`. -/
def atModifier (chr : Gunichar) : Exec (State W Reg) MainState := do
  let s <- get
  if s.machine.flags.modifierAt then
    throw (TecoError.modifier chr)
  else do
    undoFlags env
    modify (State.mapFlags (fun f => { f with modifierAt := true }))
    pure MainState.start

/-- `:`. -/
def colonModifier (chr : Gunichar) : Exec (State W Reg) MainState := do
  let s <- get
  if s.mode ≠ Mode.normal then
    pure MainState.start
  else if s.machine.flags.modifierColon >= 2 then
    throw (TecoError.modifier chr)
  else do
    undoFlags env
    modify (State.mapFlags (fun f =>
      { f with modifierColon := f.modifierColon + 1 }))
    pure MainState.start

/-- The table of `teco_state_start_input()`, for characters which are no control
characters. -/
def startTransition (chr : Gunichar) : Exec (State W Reg) MainState :=
  transitionInput host env startTransitions (asciiToUpper chr)

/-- Whether the command line consists of the character `*` so far. -/
def startsWithStar : Bool :=
  env.cmdline.effectiveLen == 1 &&
    env.cmdline.str.head? == some '*'.toUInt8

/-- `teco_state_start_input()`. -/
def startInput (chr : Gunichar) : Exec (State W Reg) MainState := do
  let s <- get
  if isNoop chr then
    unmodified chr (pure ())
  else if '0'.toNat <= chr ∧ chr <= '9'.toNat then
    unmodified chr (digit host env chr)
  else
    match ascii chr with
    | some '*' =>
        if startsWithStar env then
          pure (MainState.expectqreg .saveCmdline)
        else
          startTransition host env chr
    | some '<' =>
        if s.machine.flags.modifierAt then
          throw
            { code := ErrorCode.modifier
              message := "Unexpected modifier on loop start" }
        else if s.mode = Mode.parseOnlyLoop then
          skipLoopOpen env
        else
          startTransition host env chr
    | some '>' =>
        if s.machine.flags.modifierAt then
          throw
            { code := ErrorCode.modifier
              message := "Unexpected modifier on loop end" }
        else if s.mode = Mode.parseOnlyLoop then
          skipLoopClose env
        else
          startTransition host env chr
    | some '|' => unmodified chr (condElse env)
    | some '\'' => unmodified chr (condEnd env)
    | some 'w' => wordCommand host env (.words 1)
    | some 'W' => wordCommand host env (.words 1)
    | some 'p' => wordCommand host env (.words (-1))
    | some 'P' => wordCommand host env (.words (-1))
    | some 'v' => wordCommand host env (.deleteWords 1)
    | some 'V' => wordCommand host env (.deleteWords 1)
    | some 'y' => wordCommand host env (.deleteWords (-1))
    | some 'Y' => wordCommand host env (.deleteWords (-1))
    | some '@' => atModifier env chr
    | some ':' => colonModifier env chr
    | _ =>
        if isCtl chr then
          controlInput host env (ctlEcho chr)
        else
          startTransition host env chr

/-!
## Conditionals
-/

/-- The condition of a conditional command.  `none` is an unknown kind of
conditional, `args` the number of arguments. -/
def condition (chr : Gunichar) (args : Nat) (value : TecoInt) : Option Bool :=
  let code := value.toNat % 2 ^ 32
  match ascii (asciiToUpper chr) with
  | some '~' => some (args = 0)
  | some 'A' => some (host.glib.isAlpha code)
  | some 'C' =>
      some (host.glib.isAlnum code || value == '.'.toNat ||
        value == '$'.toNat || value == '_'.toNat)
  | some 'D' => some (host.glib.isDigit code)
  | some 'I' => some (value == '/'.toNat)
  | some 'S' => some (value.slt 0)
  | some 'T' => some (value.slt 0)
  | some 'F' => some (!value.slt 0)
  | some 'U' => some (!value.slt 0)
  | some 'E' => some (value == 0)
  | some '=' => some (value == 0)
  | some 'G' => some ((0 : TecoInt).slt value)
  | some '>' => some ((0 : TecoInt).slt value)
  | some 'L' => some (value.slt 0)
  | some '<' => some (value.slt 0)
  | some 'N' => some (value != 0)
  | some 'R' => some (host.glib.isAlnum code)
  | some 'V' => some (host.glib.isLower code)
  | some 'W' => some (host.glib.isUpper code)
  | _ => none

/-- Fetch the value of a conditional command, which `"~` does not need. -/
def condValue (chr : Gunichar) : Exec (State W Reg) TecoInt := do
  onExpr (Expressions.eval false)
  let s <- get
  if chr = '~'.toNat then
    pure 0
  else if s.editor.expr.args = 0 then
    throw (TecoError.argExpected "\"")
  else
    onExpr (Expressions.popNum 0)

def invalidConditional (chr : Gunichar) : TecoError :=
  TecoError.failed ("Invalid conditional type \"" ++
    String.ofList [Char.ofNat (chr % 256)] ++ "\"")

/-- `teco_state_condcommand_input()`. -/
def condcommandInput (chr : Gunichar) : Exec (State W Reg) MainState := do
  let s <- get
  if s.mode = Mode.normal then do
    let value <- condValue chr
    let s <- get
    match condition host chr s.editor.expr.args value with
    | none => throw (invalidConditional chr)
    | some true => pure MainState.start
    | some false => do
        setMode env Mode.parseOnlyCond
        pure MainState.start
  else do
    if s.mode = Mode.parseOnlyCond ∨ s.mode = Mode.parseOnlyCondForce then
      addNestLevel env 1
    else
      pure ()
    match condition host chr 0 0 with
    | none => throw (invalidConditional chr)
    | some _ => pure MainState.start

/-!
## States that look ahead
-/

/-- `teco_state_escape_input()`. -/
def escapeInput (chr : Gunichar) : Exec (State W Reg) MainState := do
  let s <- get
  if chr = 0x1B ∨ chr = '$'.toNat then
    if s.mode = Mode.normal then do
      tecoReturn host env
      pure MainState.start
    else
      pure MainState.start
  else if s.mode = Mode.normal then do
    onExpr Expressions.discardArgs
    startInput host env chr
  else
    startInput host env chr

/-- `TECO_ERROR_QUIT`. -/
def errorQuit : TecoError := { code := ErrorCode.quit, message := "" }

/-- `teco_state_ctlc_control_input()`. -/
def ctlcControlInput (chr : Gunichar) : Exec (State W Reg) MainState := do
  let s <- get
  if chr = 'c'.toNat ∨ chr = 'C'.toNat then
    if s.mode ≠ Mode.normal then
      pure MainState.start
    else if env.undoEnabled then
      throw (TecoError.failed "<^C^C> not allowed in interactive mode")
    else do
      onExpr (Expressions.eval false)
      throw errorQuit
  else if s.mode = Mode.normal then do
    tecoReturn host env
    pure MainState.start
  else
    controlInput host env chr

/-- `teco_state_ctlc_input()`. -/
def ctlcInput (chr : Gunichar) : Exec (State W Reg) MainState := do
  let s <- get
  if chr = ctlKey 'C'.toNat then
    ctlcControlInput host env 'C'.toNat
  else if chr = '^'.toNat then
    pure MainState.ctlcControl
  else if s.mode = Mode.normal then do
    tecoReturn host env
    pure MainState.start
  else
    startInput host env chr

/-- `teco_state_ctlc_initial()`. -/
def ctlcInitial : Exec (State W Reg) Unit :=
  if env.isCmdline then
    throw (TecoError.failed
      "<^C> is not allowed to terminate command-lines")
  else
    pure ()

/-- `teco_state_ascii_input()`. -/
def asciiInput (chr : Gunichar) : Exec (State W Reg) MainState := do
  let s <- get
  if s.mode = Mode.normal then do
    onExpr (Expressions.pushInt (BitVec.ofNat 64 chr))
    pure MainState.start
  else
    pure MainState.start

/-!
## Printing
-/

/-- `%d`, `%o` and `%X`. -/
def formatRadix (radix : Nat) (n : TecoInt) : Bytes :=
  if radix = 8 then
    utf8 (String.ofList (Nat.toDigits 8 n.toNat))
  else if radix = 16 then
    utf8 (String.ofList ((Nat.toDigits 16 n.toNat).map Char.toUpper))
  else
    utf8 (toString n.toInt)

/-- `teco_print()`. -/
def print (radix : Nat) : Exec (State W Reg) Unit := do
  onExpr (Expressions.eval false)
  let s <- get
  if s.editor.expr.args = 0 then
    throw (TecoError.argExpected "=")
  else
    match s.editor.expr.peekNum 0 with
    | none => fault Fault.outOfBounds
    | some n => do
        let colon <- evalColon env
        interfaceMsg Severity.user
          (formatRadix radix n ++
            (if colon = 0 then ['\n'.toUInt8] else []))

/-- `teco_cmdline_is_executing()`. -/
def cmdlineIsExecuting (s : State W Reg) : Bool :=
  env.isCmdline && s.machine.macroPc == env.cmdline.effectiveLen

/-- `teco_state_print_decimal_initial()` and
`teco_state_print_octal_initial()`. -/
def printInitial (radix : Nat) : Exec (State W Reg) Unit := do
  let s <- get
  if s.mode ≠ Mode.normal then
    pure ()
  else do
    let executing := cmdlineIsExecuting env s
    modify (fun s => { s with isExecuting := executing })
    if executing then print env radix else pure ()

/-- Print the number, unless this has been done already, and pop it. -/
def printDeferred (radix : Nat) : Exec (State W Reg) Unit := do
  let s <- get
  if s.mode = Mode.normal then do
    if s.isExecuting then pure () else print env radix
    let _ <- onExpr (Expressions.popNum 0)
    pure ()
  else
    pure ()

/-- `teco_state_print_decimal_input()`. -/
def printDecimalInput (chr : Gunichar) : Exec (State W Reg) MainState :=
  if chr = '='.toNat then
    pure MainState.printOctal
  else do
    printDeferred env 10
    startInput host env chr

/-- `teco_state_print_octal_input()`. -/
def printOctalInput (chr : Gunichar) : Exec (State W Reg) MainState := do
  let s <- get
  if chr = '='.toNat then
    if s.mode = Mode.normal then do
      print env 16
      let _ <- onExpr (Expressions.popNum 0)
      pure MainState.start
    else
      pure MainState.start
  else do
    printDeferred env 8
    startInput host env chr

/-- `teco_state_print_decimal_end_of_macro()` and
`teco_state_print_octal_end_of_macro()`. -/
def printEndOfMacro (radix : Nat) : Exec (State W Reg) Unit := do
  let s <- get
  if s.mode ≠ Mode.normal ∨ s.isExecuting then
    pure ()
  else do
    print env radix
    let _ <- onExpr (Expressions.popNum 0)
    pure ()

/-!
## Labels and comments
-/

/-- The end of a label definition. -/
def labelDone : Exec (State W Reg) Unit := do
  let s <- get
  let name := s.machine.gotoLabel
  match gotoTableFind s.machine.gotoTable name with
  | none => do
      modify (State.mapMachine (fun m =>
        { m with gotoTable := (name, m.macroPc) :: m.gotoTable }))
      undo env (State.mapMachine (fun m =>
        { m with
          gotoTable := m.gotoTable.eraseP (fun entry => entry.1 == name) }))
      if s.gotoSkipLabel ≠ [] ∧ name = s.gotoSkipLabel then do
        clearGotoSkipLabel
        setMode env Mode.normal
      else
        pure ()
  | some existingPc =>
      if existingPc ≠ s.machine.macroPc then
        interfaceMsg Severity.warning
          (utf8 "Ignoring goto label \"" ++ stringEcho name ++
            utf8 "\" redefinition")
      else
        pure ()

/-- `teco_state_label_input()`. -/
def labelInput (chr : Gunichar) : Exec (State W Reg) MainState := do
  let s <- get
  if s.machine.gotoLabel = [] ∧ chr = '*'.toNat then
    pure MainState.blockcomment
  else if s.machine.gotoLabel = [] ∧ chr = '!'.toNat then
    pure MainState.eolcomment
  else if chr = '!'.toNat then do
    labelDone env
    undo env (State.mapMachine (fun m =>
      { m with gotoLabel := s.machine.gotoLabel }))
    modify (State.mapMachine (fun m => { m with gotoLabel := [] }))
    pure MainState.start
  else do
    undo env (State.mapMachine (fun m =>
      { m with gotoLabel := m.gotoLabel.take s.machine.gotoLabel.length }))
    modify (State.mapMachine (fun m =>
      { m with gotoLabel := m.gotoLabel ++ unicharToUtf8 chr }))
    pure MainState.label

/-- `teco_state_blockcomment_star_input()`. -/
def blockcommentStarInput (chr : Gunichar) : MainState :=
  if chr = '!'.toNat then MainState.start else MainState.blockcomment

def blockcommentInput (chr : Gunichar) : MainState :=
  if chr = '*'.toNat then MainState.blockcommentStar
  else MainState.blockcomment

def eolcommentInput (chr : Gunichar) : MainState :=
  if chr = '\n'.toNat then MainState.start else MainState.eolcomment

end Callbacks

end Parser
end SciTECO
