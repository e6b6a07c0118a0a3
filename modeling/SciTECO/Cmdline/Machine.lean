import SciTECO.Cmdline.Executed
import SciTECO.Parser.SampleHost

/-!
# The machine of the command line

The command line is executed by the main machine of the parser.  Lines can also
be executed for themselves, as they are typed.
-/

namespace SciTECO

open Undoable Interpreter PositionLog

/-!
## The main machine
-/

namespace Parser

open QReg (Table)

/-- What the command line needs of the rest of the editor. -/
structure Surroundings (W : Type) where
  /-- `teco_ed & TECO_ED_EXIT`. -/
  exits : Editor W -> Bool
  /-- `teco_eol_get_seq()`, or a line feed with `TECO_ED_AUTOEOL`. -/
  eolSeq : Editor W -> Bytes
  /-- `teco_last_cmdline`. -/
  saveLast : Bytes -> W -> W

/-- The states defined by `TECO_DEFINE_STATE_START()`. -/
def MainState.isStart : MainState -> Bool
  | .start => true
  | .escape => true
  | .ctlc => true
  | .printDecimal => true
  | .printOctal => true
  | _ => false

variable {W Reg : Type}

/-- The contents of the register `^[`. -/
def getReplacement (host : Host W Reg) : Exec (State W Reg) Bytes := do
  let s <- get
  match host.find Table.globals [0x1B] s.editor with
  | none => fault Fault.nullPointer
  | some reg => do
      let contents <- zoom editorLens (host.getString reg)
      pure (contents.getD [])

/-- What is reset at the end of a command line. -/
def State.terminate (around : Surroundings W) (line : Bytes)
    (s : State W Reg) : State W Reg :=
  { s with
    machine := { s.machine with gotoTable := [] }
    editor :=
      { s.editor with
        expr :=
          { s.editor.expr with numbers := [], operators := [], braceLevel := 0 }
        loopStack := []
        world := around.saveLast line s.editor.world } }

/-- `teco_cmdline.machine`. -/
def cmdlineMachine [DecidableEq Reg] (host : Host W Reg) (env : Env)
    (around : Surroundings W) (fuel : Nat) : Interpreter (State W Reg) :=
  { step := fun view =>
      mainStep host { env with cmdline := view } view.str (view.pc + 1) fuel
    setMacroPc := fun n => State.mapMachine (fun m => { m with macroPc := n })
    getReplacement := getReplacement host
    inStart := fun s => s.machine.current == MainState.start
    isStart := fun s => s.machine.current.isStart
    exits := fun s => around.exits s.editor
    eolSeq := fun s => around.eolSeq s.editor
    terminate := State.terminate around
    setMacroPc_setMacroPc := fun _ _ _ => rfl }

/-- A command line with a small host. -/
def sampleMachine : Interpreter (State SampleWorld SampleReg) :=
  cmdlineMachine settingHost (sampleEnv [] 0 0)
    { exits := fun _ => false
      eolSeq := fun _ => ['\n'.toUInt8]
      saveLast := fun _ w => w } 100

end Parser

/-!
## Executing a text
-/

namespace Interpreter

variable {σ : Type} (I : Interpreter σ)

/-- Step over a number of bytes. -/
def stepBytes (line : Bytes) (pc : Nat) (s : σ) : Nat -> Option (Log σ × σ)
  | 0 => some ([], s)
  | n + 1 =>
      match stepBytes line pc s n with
      | none => none
      | some (log, t) =>
          match I.step (viewOf line (pc + log.length)) t with
          | .ok _ u tokens => some (log ++ [tokens], u)
          | _ => none

/-- Type the characters behind a text. -/
def executeFrom (text : List Gunichar) (log : Log σ) (s : σ) :
    List Gunichar -> Option (Log σ × σ)
  | [] => some (log, s)
  | chr :: chars =>
      match I.stepBytes (encoded (text ++ [chr])) (encoded text).length
          (I.setMacroPc (encoded text).length s)
          (unicharToUtf8 chr).length with
      | none => none
      | some (last, t) => executeFrom (text ++ [chr]) (log ++ last) t chars

/-- Type a text. -/
def execute (s₀ : σ) (text : List Gunichar) : Option (Log σ × σ) :=
  I.executeFrom [] [] s₀ text

variable {I}

theorem stepBytes_steps {line : Bytes} {pc n : Nat} {s t : σ} {log : Log σ}
    (h : I.stepBytes line pc s n = some (log, t)) :
    Steps I line pc s log t ∧ log.length = n := by
  induction n generalizing log t with
  | zero =>
      cases h
      exact ⟨Steps.nil, rfl⟩
  | succ n ih =>
      rw [stepBytes] at h
      split at h
      case h_1 => cases h
      case h_2 front u hfront =>
          rcases ih hfront with ⟨hsteps, hlength⟩
          split at h
          case h_1 hstep =>
              cases h
              refine ⟨Steps.step hsteps hstep, ?_⟩
              rw [List.length_append, List.length_singleton, hlength]
          case h_2 => cases h

theorem executeFrom_executed {s₀ s t : σ} {text chars : List Gunichar}
    {log log' : Log σ} (h : Executed I s₀ text log s) (hchars : ValidText chars)
    (hrun : I.executeFrom text log s chars = some (log', t)) :
    Executed I s₀ (text ++ chars) log' t := by
  induction chars generalizing text log s with
  | nil =>
      cases hrun
      rw [List.append_nil]
      exact h
  | cons chr chars ih =>
      rw [executeFrom] at hrun
      split at hrun
      case h_1 => cases hrun
      case h_2 last u hlast =>
          rcases stepBytes_steps hlast with ⟨hsteps, hlength⟩
          have hchar := Executed.char h (hchars chr List.mem_cons_self) hsteps
            hlength
          have hrest := ih hchar
            (fun x hx => hchars x (List.mem_cons_of_mem chr hx)) hrun
          rw [List.append_assoc, List.singleton_append] at hrest
          exact hrest

/-- Texts that can be typed have been executed. -/
theorem execute_executed {s₀ t : σ} {text : List Gunichar} {log : Log σ}
    (htext : ValidText text) (hrun : I.execute s₀ text = some (log, t)) :
    Executed I s₀ text log t :=
  executeFrom_executed Executed.nil htext hrun

end Interpreter
end SciTECO
