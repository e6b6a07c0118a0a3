import SciTECO.Completion.Reading
import SciTECO.Lib.PositionLog
import SciTECO.Parser.Host

/-!
# The command line

`teco_cmdline_insert()` and the two functions that rub out and reinsert a
character.  The machine is stepped over the command line byte by byte, so that
undo tokens are registered for the character that emits them.
-/

namespace SciTECO

open PositionLog

/-- How the command line crashes. -/
inductive CmdlineFault where
  /-- `g_assert(teco_undo_heads->len == teco_cmdline.pc+1)`. -/
  | undoHeads
  /-- `g_assert(old_cmdline.len == 0)`. -/
  | oldCmdline
  /-- `g_assert(machine->current == &teco_state_start)`. -/
  | notStart
  /-- The command line is read behind its end. -/
  | outOfBounds
  | outOfFuel
  /-- A command crashes. -/
  | machine (cause : Fault)
deriving DecidableEq, Repr

/-!
## The state
-/

/-- The machine of the command line together with everything that commands work
on. -/
structure Interpreter (σ : Type) where
  /-- `teco_machine_main_step()` up to the position behind `pc`. -/
  step : Parser.CmdlineView -> Exec σ Unit
  setMacroPc : Nat -> σ -> σ
  /-- The contents of the register `^[`. -/
  getReplacement : Exec σ Bytes
  /-- `current == &teco_state_start`. -/
  inStart : σ -> Bool
  /-- `current->is_start`. -/
  isStart : σ -> Bool
  /-- `teco_ed & TECO_ED_EXIT`. -/
  exits : σ -> Bool
  /-- What a line feed key inserts. -/
  eolSeq : σ -> Bytes
  /-- What is reset behind a command line that has been terminated, and which
  is kept as `teco_last_cmdline`. -/
  terminate : Bytes -> σ -> σ
  setMacroPc_setMacroPc : forall n m s,
    setMacroPc n (setMacroPc m s) = setMacroPc n s

/-- `teco_cmdline_t` with `teco_undo_heads`. -/
structure Cmdline (σ : Type) where
  machine : σ
  undoHeads : Log σ
  str : Bytes
  effectiveLen : Nat
  pc : Nat
  modifierEnabled : Bool

/-- Computations of the command line, which emit no tokens themselves. -/
abbrev CmdlineExec (σ α : Type) : Type :=
  Undoable TecoError CmdlineFault (Cmdline σ) α

namespace Cmdline

variable {σ : Type} (I : Interpreter σ)

/-- An empty command line. -/
def empty (s : σ) : Cmdline σ :=
  { machine := s
    undoHeads := []
    str := []
    effectiveLen := 0
    pc := 0
    modifierEnabled := false }

/-- What commands see. -/
def view (c : Cmdline σ) : Parser.CmdlineView :=
  { str := c.str
    effectiveLen := c.effectiveLen
    pc := c.pc }

/-- Set both program counters. -/
def setPc (n : Nat) (c : Cmdline σ) : Cmdline σ :=
  { c with machine := I.setMacroPc n c.machine, pc := n }

/-- `teco_undo_pop()`. -/
def undoPop (pc : Nat) (c : Cmdline σ) : Cmdline σ :=
  { c with
    machine := unwindFrom pc c.undoHeads c.machine
    undoHeads := c.undoHeads.take pc }

/-- Run a command, the tokens of which are pushed at `pc`. -/
def onMachine {α : Type} (m : Exec σ α) : CmdlineExec σ α := fun c =>
  match m c.machine with
  | .ok a s tokens =>
      match pushAll c.pc tokens c.undoHeads with
      | some heads => .ok a { c with machine := s, undoHeads := heads } []
      | none => .fault CmdlineFault.undoHeads
  | .error e s tokens =>
      match pushAll c.pc tokens c.undoHeads with
      | some heads => .error e { c with machine := s, undoHeads := heads } []
      | none => .fault CmdlineFault.undoHeads
  | .fault cause => .fault (CmdlineFault.machine cause)

/-!
## Insertion
-/

/-- Bytes are compared with those that are rubbed out, which are replaced when
they differ. -/
def putText (data : Bytes) (c : Cmdline σ) : Cmdline σ :=
  if data.length ≤ c.str.length - c.effectiveLen ∧
      data = (c.str.drop c.effectiveLen).take data.length then
    { c with effectiveLen := c.effectiveLen + data.length }
  else
    { c with
      str := c.str.take c.effectiveLen ++ data
      effectiveLen := c.effectiveLen + data.length
      modifierEnabled :=
        if c.effectiveLen < c.str.length then false else c.modifierEnabled }

/-- The command line with the local variables of the loop. -/
structure Insertion (σ : Type) where
  cmdline : Cmdline σ
  oldCmdline : Bytes
  replPc : Nat

/-- How a pass of the loop ends. -/
inductive Pass (σ : Type) where
  | again (l : Insertion σ)
  | failed (e : TecoError) (c : Cmdline σ)
  | crashed (cause : CmdlineFault)

/-- An error that is displayed, with a code below `TECO_ERROR_CMDLINE`. -/
def Ordinary (e : TecoError) : Prop :=
  e.code ≠ ErrorCode.cmdline ∧ e.code ≠ ErrorCode.returned ∧
    e.code ≠ ErrorCode.quit

instance (e : TecoError) : Decidable (Ordinary e) :=
  inferInstanceAs (Decidable (_ ∧ _ ∧ _))

/-- Go on with another command line from the first difference. -/
def exchange (new : Bytes) (c : Cmdline σ) : Cmdline σ :=
  let pc := Completion.stringDiff c.str new
  { (c.undoPop pc).setPc I pc with str := new, effectiveLen := new.length }

/-- Command line replacement. -/
def exchangeCmdlines (l : Insertion σ) (c : Cmdline σ) : Pass σ :=
  match onMachine I.getReplacement c with
  | .ok new c _ =>
      if l.oldCmdline ≠ [] then .crashed CmdlineFault.oldCmdline
      else
        .again
          { cmdline := c.exchange I new
            oldCmdline := c.str
            replPc := Completion.stringDiff c.str new }
  | .error e c _ => .failed e c
  | .fault cause => .crashed cause

/-- Replay the previous command line without the character that has replaced
it. -/
def replay (l : Insertion σ) (c : Cmdline σ) : Insertion σ :=
  { cmdline :=
      { (c.undoPop l.replPc).setPc I l.replPc with
        str := l.oldCmdline
        effectiveLen := c.effectiveLen - 1 }
    oldCmdline := []
    replPc := l.replPc }

/-- The body of the loop. -/
def pass (l : Insertion σ) : Pass σ :=
  match onMachine (I.step l.cmdline.view) l.cmdline with
  | .ok _ c _ => .again { l with cmdline := { c with pc := c.pc + 1 } }
  | .error e c _ =>
      if e.code = ErrorCode.cmdline then exchangeCmdlines I l c
      else if Ordinary e ∧ l.oldCmdline ≠ [] then .again (replay I l c)
      else .failed e c
  | .fault cause => .crashed cause

/-- Execute up to the end of the effective command line. -/
def insertLoop : Nat -> Insertion σ -> Outcome TecoError CmdlineFault
    (Cmdline σ) Unit
  | 0, _ => .fault CmdlineFault.outOfFuel
  | fuel + 1, l =>
      if l.cmdline.pc < l.cmdline.effectiveLen then
        match pass I l with
        | .again l => insertLoop fuel l
        | .failed e c => .error e c []
        | .crashed cause => .fault cause
      else .ok () l.cmdline []

/-- The command line at the beginning of the loop. -/
def inserting (data : Bytes) (c : Cmdline σ) : Insertion σ :=
  { cmdline := (c.setPc I c.effectiveLen).putText data
    oldCmdline := []
    replPc := 0 }

/-- `teco_cmdline_insert()`. -/
def insert (fuel : Nat) (data : Bytes) : CmdlineExec σ Unit := fun c =>
  if c.str.length < c.effectiveLen then .fault CmdlineFault.outOfBounds
  else insertLoop I fuel (c.inserting I data)

/-!
## Rubbing out
-/

/-- A byte within a sequence. -/
def isContinuation (b : UInt8) : Bool := b &&& 0xC0 == 0x80

/-- `g_utf8_find_next_char()`: the number of bytes up to the next character or
the end. -/
def nextCharLen : Bytes -> Nat
  | [] => 0
  | _ :: rest => 1 + (rest.takeWhile isContinuation).length

/-- `g_utf8_find_prev_char()` from the end of a string. -/
def findPrevChar (str : Bytes) : Option Nat :=
  let behind := (str.reverse.takeWhile isContinuation).length
  if behind < str.length then some (str.length - behind - 1) else none

/-- `teco_cmdline_rubin()`. -/
def rubin (fuel : Nat) : CmdlineExec σ Unit := fun c =>
  if c.str = [] then .ok () c []
  else
    let rest := c.str.drop c.effectiveLen
    insert I fuel (rest.take (nextCharLen rest)) c

/-- `teco_cmdline_rubout()`. -/
def rubout : CmdlineExec σ Unit := fun c =>
  if c.str.length < c.effectiveLen then .fault CmdlineFault.outOfBounds
  else
    match findPrevChar (c.str.take c.effectiveLen) with
    | some p => .ok () { c.undoPop p with effectiveLen := p } []
    | none => .ok () c []

end Cmdline
end SciTECO
