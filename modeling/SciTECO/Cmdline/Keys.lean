import SciTECO.Characters
import SciTECO.Cmdline.Insert

/-!
# Key presses

`teco_cmdline_keypress()` calls the `process_edit_cmd_cb` of the current state
for every character of a key string.  Such a callback inserts characters, rubs
them out or reinserts them.
-/

namespace SciTECO
namespace Cmdline

variable {σ : Type}

/-!
## Callbacks
-/

/-- What a `process_edit_cmd_cb` does to the command line, which it looks at
between the steps. -/
inductive Edits (σ : Type) where
  | done
  | insert (data : Bytes) (next : Edits σ)
  | rubin (next : Edits σ)
  | rubout (next : Edits σ)
  | setModifier (enabled : Bool) (next : Edits σ)
  | look (f : Cmdline σ -> Edits σ)
  /-- A loop that does not end. -/
  | stuck

variable (I : Interpreter σ) (fuel : Nat)

def Edits.run : Edits σ -> CmdlineExec σ Unit
  | done => pure ()
  | insert data next => do
      Cmdline.insert I fuel data
      next.run
  | rubin next => do
      Cmdline.rubin I fuel
      next.run
  | rubout next => do
      Cmdline.rubout
      next.run
  | setModifier enabled next => do
      Undoable.modify (fun c => { c with modifierEnabled := enabled })
      next.run
  | look f => fun c => (f c).run c
  | stuck => Undoable.fault CmdlineFault.outOfFuel

namespace Edits

/-- `do teco_cmdline_rubin(); while (!is_start && effective_len < str.len)`. -/
def reinsertConstruct : Nat -> Edits σ
  | 0 => stuck
  | n + 1 =>
      rubin (look (fun c =>
        if ¬ I.isStart c.machine ∧ c.effectiveLen < c.str.length then
          reinsertConstruct n
        else done))

/-- `do teco_cmdline_rubout(); while (!is_start)`. -/
def ruboutConstruct : Nat -> Edits σ
  | 0 => stuck
  | n + 1 =>
      rubout (look (fun c =>
        if ¬ I.isStart c.machine then ruboutConstruct n else done))

/-- `teco_state_process_edit_cmd()`.  The redisplay key and the one that
suspends the program do nothing to the command line. -/
def processEditCmd (key : Gunichar) : Edits σ :=
  if key = '\n'.toNat then
    look (fun c => insert (I.eolSeq c.machine) done)
  else if key = ctlKey 'G'.toNat then
    look (fun c => setModifier (!c.modifierEnabled) done)
  else if key = ctlKey 'H'.toNat then
    look (fun c => if c.modifierEnabled then rubin done else rubout done)
  else if key = ctlKey 'W'.toNat then
    look (fun c =>
      if c.modifierEnabled then reinsertConstruct I fuel
      else ruboutConstruct I fuel)
  else if key = ctlKey 'Z'.toNat ∨ key = ctlKey 'L'.toNat then done
  else insert (unicharToUtf8 key) done

end Edits

/-!
## Keys
-/

/-- The command line is rubbed out up to where the key string begins. -/
def recover (startPc : Nat) (c : Cmdline σ) : Cmdline σ :=
  { c.undoPop startPc with
    machine := I.setMacroPc startPc (c.undoPop startPc).machine
    effectiveLen := startPc }

/-- The command line has been terminated. -/
def terminated (c : Cmdline σ) : Cmdline σ :=
  { c with
    machine := I.terminate c.str c.machine
    undoHeads := []
    str := []
    effectiveLen := 0 }

variable (callback : Gunichar -> Edits σ)

/-- The loop over the characters of a key string. -/
def keyLoop (startPc : Nat) : List Gunichar -> CmdlineExec σ Unit
  | [], c => .ok () c []
  | key :: keys, c =>
      match (callback key).run I fuel c with
      | .ok _ c _ => keyLoop startPc keys c
      | .error e c _ =>
          if e.code ≠ ErrorCode.returned then .ok () (c.recover I startPc) []
          else if ¬ I.inStart c.machine then .fault CmdlineFault.notStart
          else if I.exits c.machine then
            .error { code := ErrorCode.quit, message := "" } c []
          else keyLoop 0 keys (c.terminated I)
      | .fault cause => .fault cause

/-- `teco_cmdline_keypress()`. -/
def keypress (data : Bytes) : CmdlineExec σ Unit := fun c =>
  if validateUtf8 data.length data = false then
    .error
      { code := ErrorCode.codepoint, message := "Invalid UTF-8 sequence" } c []
  else keyLoop I fuel callback c.effectiveLen (characters data) c

/-- Press keys one after another. -/
def typeKeys : List Bytes -> Cmdline σ -> Option (Cmdline σ)
  | [], c => some c
  | data :: rest, c =>
      match keypress I fuel callback data c with
      | .ok _ d _ => typeKeys rest d
      | _ => none

variable {I fuel callback}

theorem typeKeys_cons {data : Bytes} {rest : List Bytes} {c d : Cmdline σ}
    (h : typeKeys I fuel callback (data :: rest) c = some d) :
    exists c', typeKeys I fuel callback [data] c = some c' ∧
      typeKeys I fuel callback rest c' = some d := by
  rw [typeKeys] at h
  split at h
  case h_1 c' _ hkey =>
      refine ⟨c', ?_, h⟩
      rw [typeKeys, hkey]
      rfl
  case h_2 => cases h

end Cmdline
end SciTECO
