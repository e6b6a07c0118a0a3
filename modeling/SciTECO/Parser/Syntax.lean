import SciTECO.Parser.Execution

/-!
# The syntax of the language

Which characters belong to which command does not depend on what the commands
do.  A syntactic state is what is left of a machine when everything is removed
that has to do with execution, and `Syntax.step` reads a character in it.

`replaceInsert` and `replaceIgnore` read the same characters, and so do
`replaceDefaultInsert` and `replaceDefaultIgnore`.  They are one syntactic
state.
-/

namespace SciTECO
namespace Parser

variable {W Reg : Type}

/-!
## String building
-/

/-- The states which hand their characters to a specification machine. -/
def SBState.readsSpec : SBState -> Bool
  | ctleNum => true
  | ctleU => true
  | ctleQ => true
  | ctleQuote => true
  | ctleN => true
  | _ => false

/-- A string building machine, with the specification machine that it is
feeding. -/
inductive SBSyntax where
  | base (current : SBState) (disabled : Bool)
  | spec (current : SBState) (disabled : Bool) (state : SpecState)
      (nesting : Int) (inner : SBSyntax)
deriving DecidableEq, Repr

namespace SBSyntax

def current : SBSyntax -> SBState
  | base current _ => current
  | spec current _ _ _ _ => current

/-- After a reset. -/
def fresh : SBSyntax := base SBState.start false

/-- A character after `^`, or a control character. -/
def ctlStep (disabled : Bool) (chr : Gunichar) : SBSyntax :=
  match ascii (asciiToUpper chr) with
  | some 'P' => base .start true
  | some 'Q' => base .escaped disabled
  | some 'R' => base .escaped disabled
  | some 'V' => base .lower disabled
  | some 'W' => base .upper disabled
  | some 'E' => base .ctle disabled
  | _ => base .start disabled

/-- A character outside of any construct. -/
def startStep (disabled : Bool) (chr : Gunichar) : SBSyntax :=
  if disabled then base .start disabled
  else if chr = '^'.toNat then base .ctl disabled
  else if chr = ctlKey '^'.toNat then base .start disabled
  else if isCtl chr then ctlStep disabled (ctlEcho chr)
  else base .start disabled

/-- A character after `^E`. -/
def ctleStep (disabled : Bool) (chr : Gunichar) : SBSyntax :=
  match ctleState chr with
  | none => base .start disabled
  | some next =>
      if next.readsSpec then spec next disabled .start 0 fresh
      else base next disabled

/-- A character in a state that feeds no specification machine. -/
def baseStep (current : SBState) (disabled : Bool) (chr : Gunichar) :
    SBSyntax :=
  match current with
  | .start => startStep disabled chr
  | .ctl => ctlStep disabled chr
  | .lower =>
      base (if chr = '^'.toNat then .lowerCtl else .start) disabled
  | .upper =>
      base (if chr = '^'.toNat then .upperCtl else .start) disabled
  | .ctle => ctleStep disabled chr
  | .ctleCode =>
      base (if chr = '>'.toNat then .start else .ctleCode) disabled
  | _ => base .start disabled

/-- A character outside of brackets, with the change of the nesting. -/
def specGlobalStep (chr : Gunichar) : SpecState × Int :=
  match ascii chr with
  | some '^' => (.caret, 0)
  | some '#' => (.firstchar, 0)
  | some '[' => (.string, 1)
  | _ => (.start, 0)

/-- A character of a register specification; `feed` passes it to the string
building machine of the name.  The specification is complete in the state
`start`. -/
def specStep (feed : Option SBSyntax) (state : SpecState) (nesting : Int)
    (inner : SBSyntax) (chr : Gunichar) :
    Option (SpecState × Int × SBSyntax) :=
  match state with
  | .start =>
      if chr = '.'.toNat then some (.startGlobal, nesting, inner)
      else
        some ((specGlobalStep chr).1, nesting + (specGlobalStep chr).2, inner)
  | .startGlobal =>
      some ((specGlobalStep chr).1, nesting + (specGlobalStep chr).2, inner)
  | .caret =>
      if asciiToUpper chr < '@'.toNat ∨ asciiToUpper chr > '_'.toNat then none
      else some (.start, nesting, inner)
  | .firstchar => some (.secondchar, nesting, inner)
  | .secondchar => some (.start, nesting, inner)
  | .string =>
      if inner.current = .start ∧ chr = '['.toNat then
        feed.map (fun inner => (.string, nesting + 1, inner))
      else if inner.current = .start ∧ chr = ']'.toNat then
        if nesting - 1 = 0 then some (.start, nesting - 1, inner)
        else feed.map (fun inner => (.string, nesting - 1, inner))
      else
        feed.map (fun inner => (.string, nesting, inner))

/-- Read a character. -/
def step : SBSyntax -> Gunichar -> Option SBSyntax
  | base current disabled, chr => some (baseStep current disabled chr)
  | spec current disabled state nesting inner, chr =>
      (specStep (inner.step chr) state nesting inner chr).map (fun next =>
        if next.1 = .start then base .start disabled
        else spec current disabled next.1 next.2.1 next.2.2)

end SBSyntax

namespace StringBuilding

/-- The syntactic state of a machine. -/
def toSyntax : StringBuilding Reg -> SBSyntax
  | plain core =>
      SBSyntax.base core.current (core.mode == SBMode.disabled)
  | withSpec core spec inner =>
      if core.current.readsSpec then
        SBSyntax.spec core.current (core.mode == SBMode.disabled)
          spec.current spec.nesting inner.toSyntax
      else
        SBSyntax.base core.current (core.mode == SBMode.disabled)

/-- String building is only disabled outside of constructs, and there is a
specification machine where one is needed. -/
def WellFormed : StringBuilding Reg -> Prop
  | plain core =>
      core.current.readsSpec = false ∧
        (core.mode = SBMode.disabled -> core.current = SBState.start)
  | withSpec core _ inner =>
      inner.WellFormed ∧
        (core.mode = SBMode.disabled -> core.current = SBState.start)

end StringBuilding

/-!
## Commands
-/

/-- States that cannot be told apart by their syntax. -/
def MainState.normalize : MainState -> MainState
  | expectstring .replaceInsert => expectstring .replaceIgnore
  | expectstring .replaceDefaultInsert => expectstring .replaceDefaultIgnore
  | state => state

/-- The string arguments which follow a Q-Register argument. -/
def StringCommand.hasQReg : StringCommand -> Bool
  | .loadqreg => true
  | .saveqreg => true
  | .setqregstringNobuilding => true
  | .setqregstringBuilding => true
  | _ => false

/-- A Q-Register specification: its state, nesting and string building. -/
structure SpecSyntax where
  state : SpecState
  nesting : Int
  inner : SBSyntax
deriving DecidableEq, Repr

/-- The syntactic state of a main machine. -/
structure Syntax where
  current : MainState
  modifierAt : Bool
  escapeChar : Gunichar
  nesting : Int
  stringbuilding : SBSyntax
  qregspec : Option SpecSyntax
  labelEmpty : Bool
deriving DecidableEq, Repr

def QRegSpec.toSyntax (spec : QRegSpec Reg) : SpecSyntax :=
  { state := spec.core.current
    nesting := spec.core.nesting
    inner := spec.stringbuilding.toSyntax }

/-- The syntactic state of a machine. -/
def Machine.toSyntax (m : Machine Reg) : Syntax :=
  { current := m.current.normalize
    modifierAt := m.flags.modifierAt
    escapeChar := m.expectstring.machine.core.escapeChar
    nesting := m.expectstring.nesting
    stringbuilding := m.expectstring.machine.toSyntax
    qregspec := m.expectqreg.map QRegSpec.toSyntax
    labelEmpty := m.gotoLabel.isEmpty }

namespace Syntax

variable (toUpper : Gunichar -> Gunichar) (env : Env)

/-- The next state by a transition table. -/
def transition (transitions : Char -> Option Transition) (y : Syntax)
    (chr : Gunichar) : Option MainState :=
  match (ascii chr).bind transitions with
  | none => none
  | some entry =>
      if y.modifierAt ∧ entry.modifierAt = false then none
      else some entry.next

def startTransition (y : Syntax) (chr : Gunichar) : Option MainState :=
  y.transition startTransitions (asciiToUpper chr)

def controlInput (y : Syntax) (chr : Gunichar) : Option MainState :=
  y.transition controlTransitions (asciiToUpper chr)

/-- A command which rejects modifiers. -/
def unmodified (y : Syntax) : Option (MainState × Syntax) :=
  if y.modifierAt then none else some (.start, y)

/-- Pair a next state with an unchanged syntactic state. -/
def keep (y : Syntax) (next : Option MainState) :
    Option (MainState × Syntax) :=
  next.map (fun next => (next, y))

/-- The first character of a command. -/
def startInput (y : Syntax) (chr : Gunichar) : Option (MainState × Syntax) :=
  if isNoop chr then y.unmodified
  else if '0'.toNat <= chr ∧ chr <= '9'.toNat then y.unmodified
  else
    match ascii chr with
    | some '*' =>
        if startsWithStar env then some (.expectqreg .saveCmdline, y)
        else y.keep (y.startTransition chr)
    | some '<' => y.unmodified
    | some '>' => y.unmodified
    | some '|' => y.unmodified
    | some '\'' => y.unmodified
    | some 'w' => some (.start, { y with modifierAt := false })
    | some 'W' => some (.start, { y with modifierAt := false })
    | some 'p' => some (.start, { y with modifierAt := false })
    | some 'P' => some (.start, { y with modifierAt := false })
    | some 'v' => some (.start, { y with modifierAt := false })
    | some 'V' => some (.start, { y with modifierAt := false })
    | some 'y' => some (.start, { y with modifierAt := false })
    | some 'Y' => some (.start, { y with modifierAt := false })
    | some '@' =>
        if y.modifierAt then none
        else some (.start, { y with modifierAt := true })
    | some ':' => some (.start, y)
    | _ =>
        if isCtl chr then y.keep (y.controlInput (ctlEcho chr))
        else y.keep (y.startTransition chr)

/-- The second character of `^C`. -/
def ctlcControlInput (y : Syntax) (chr : Gunichar) : Option MainState :=
  if chr = 'c'.toNat ∨ chr = 'C'.toNat then some .start
  else y.controlInput chr

def labelInput (y : Syntax) (chr : Gunichar) : MainState × Syntax :=
  if y.labelEmpty ∧ chr = '*'.toNat then (.blockcomment, y)
  else if y.labelEmpty ∧ chr = '!'.toNat then (.eolcomment, y)
  else if chr = '!'.toNat then (.start, { y with labelEmpty := true })
  else (.label, { y with labelEmpty := false })

/-- The state after a Q-Register argument. -/
def afterQReg : QRegCommand -> MainState
  | .eqcommand => .expectstring .loadqreg
  | .epctcommand => .expectstring .saveqreg
  | .ctlucommand => .expectstring .setqregstringNobuilding
  | .eucommand => .expectstring .setqregstringBuilding
  | .egcommand => .expectstring .execute
  | _ => .start

/-- What is left of a Q-Register argument. -/
def qregDone (y : Syntax) : QRegCommand -> Syntax
  | .eqcommand => y
  | .epctcommand => y
  | .ctlucommand => y
  | .eucommand => y
  | .copytoqreg => { y with qregspec := none, modifierAt := false }
  | _ => { y with qregspec := none }

def expectqregInput (y : Syntax) (cmd : QRegCommand) (chr : Gunichar) :
    Option (MainState × Syntax) :=
  match y.qregspec with
  | none => none
  | some spec =>
      match SBSyntax.specStep (spec.inner.step chr) spec.state spec.nesting
          spec.inner chr with
      | none => none
      | some (state, nesting, inner) =>
          let y := { y with qregspec := some ⟨state, nesting, inner⟩ }
          if state = .start then some (afterQReg cmd, y.qregDone cmd)
          else some (.expectqreg cmd, y)

/-- The state after a string argument, if nothing is executed. -/
def afterString : StringCommand -> MainState
  | .replace => .expectstring .replaceIgnore
  | .replaceDefault => .expectstring .replaceDefaultIgnore
  | .replaceDefaultAll => .expectstring .replaceDefaultIgnore
  | .globPattern => .expectstring .globFilename
  | .scintillaSymbols => .expectstring .scintillaLparam
  | _ => .start

/-- The end of a string argument. -/
def finishString (y : Syntax) (cmd : StringCommand) :
    Option (MainState × Syntax) :=
  if cmd.hasQReg ∧ y.qregspec = none then none
  else
    some (afterString cmd,
      { y with
        qregspec := if cmd.hasQReg then none else y.qregspec
        escapeChar := if cmd.last then 0x1B else y.escapeChar
        modifierAt :=
          if cmd.last = false ∧ y.escapeChar = '{'.toNat then true
          else y.modifierAt
        nesting := 1
        stringbuilding :=
          if cmd.stringBuilding then SBSyntax.fresh else y.stringbuilding })

/-- How a character changes the nesting of a string argument. -/
def nestingChange (y : Syntax) (chr : Gunichar) : Int :=
  if y.stringbuilding.current ≠ .start then 0
  else if y.escapeChar = '{'.toNat then
    if chr = '{'.toNat then 1 else if chr = '}'.toNat then -1 else 0
  else if toUpper chr = y.escapeChar then -1
  else 0

def expectstringInput (y : Syntax) (cmd : StringCommand) (chr : Gunichar) :
    Option (MainState × Syntax) :=
  if y.modifierAt ∧ isNoop chr then some (.expectstring cmd, y)
  else if y.modifierAt then
    some (.expectstring cmd,
      { y with modifierAt := false, escapeChar := toUpper chr })
  else
    let nesting := y.nesting + y.nestingChange toUpper chr
    if nesting = 0 then { y with nesting := nesting }.finishString cmd
    else if cmd.stringBuilding then
      (y.stringbuilding.step chr).map (fun inner =>
        (.expectstring cmd,
          { y with nesting := nesting, stringbuilding := inner }))
    else
      some (.expectstring cmd, { y with nesting := nesting })

/-- The conditionals. -/
def isCondition (chr : Gunichar) : Bool :=
  match ascii (asciiToUpper chr) with
  | some c => c ∈ "~ACDISTFUE=G>L<NRVW".toList
  | none => false

/-- Read a character: the next state and the syntactic state before it is
entered. -/
def input (y : Syntax) (chr : Gunichar) : Option (MainState × Syntax) :=
  match y.current with
  | .start => y.startInput env chr
  | .fcommand => y.keep (y.transition fcommandTransitions (asciiToUpper chr))
  | .condcommand => if isCondition chr then some (.start, y) else none
  | .control => y.keep (y.controlInput chr)
  | .ascii => some (.start, y)
  | .escape =>
      if chr = 0x1B ∨ chr = '$'.toNat then some (.start, y)
      else y.startInput env chr
  | .ctlc =>
      if chr = ctlKey 'C'.toNat then some (.start, y)
      else if chr = '^'.toNat then some (.ctlcControl, y)
      else y.startInput env chr
  | .ctlcControl => y.keep (y.ctlcControlInput chr)
  | .ecommand => y.keep (y.transition ecommandTransitions (asciiToUpper chr))
  | .label => some (y.labelInput chr)
  | .blockcomment => some (blockcommentInput chr, y)
  | .blockcommentStar => some (blockcommentStarInput chr, y)
  | .eolcomment => some (eolcommentInput chr, y)
  | .printDecimal =>
      if chr = '='.toNat then some (.printOctal, y)
      else y.startInput env chr
  | .printOctal =>
      if chr = '='.toNat then some (.start, y) else y.startInput env chr
  | .expectqreg cmd => y.expectqregInput cmd chr
  | .expectstring cmd => y.expectstringInput toUpper cmd chr

/-- The initial callback of a state. -/
def initial (y : Syntax) (next : MainState) : Option Syntax :=
  match next with
  | .ctlc => if env.isCmdline then none else some y
  | .expectqreg _ =>
      some { y with qregspec := some ⟨.start, 0, SBSyntax.fresh⟩ }
  | .expectstring .printString =>
      some { y with escapeChar := ctlKey 'A'.toNat }
  | _ => some y

/-- Enter a state. -/
def enter (y : Syntax) (next : MainState) : Option Syntax :=
  if next.normalize = y.current then some y
  else { y with current := next.normalize }.initial env next.normalize

/-- Read a character. -/
def step (y : Syntax) (chr : Gunichar) : Option Syntax :=
  (y.input toUpper env chr).bind (fun next => next.2.enter env next.1)

end Syntax

end Parser
end SciTECO
