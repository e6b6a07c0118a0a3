import SciTECO.Cmdline.Running

/-!
# A small machine

A machine that keeps the bytes it has executed.  The byte `)` fails and `}`
replaces the command line by what is in the register.
-/

namespace SciTECO
namespace Cmdline

open Undoable Interpreter

/-- The bytes that have been executed, with the register. -/
structure Recording where
  done : Bytes
  register : Bytes
deriving DecidableEq, Repr

/-- Execute a byte. -/
def Recording.step (view : Parser.CmdlineView) : Exec Recording Unit := fun s =>
  match view.str[view.pc]? with
  | none => .fault Fault.outOfBounds
  | some b =>
      if b = 0x7D then
        .error { code := ErrorCode.cmdline, message := "" } s []
      else if b = 0x29 then
        .error { code := ErrorCode.failed, message := "" } s []
      else .ok () { s with done := s.done ++ [b] } [fun _ => s]

/-- It has no program counter. -/
def recorder : Interpreter Recording :=
  { step := Recording.step
    setMacroPc := fun _ s => s
    getReplacement := fun s => .ok s.register s []
    inStart := fun _ => true
    isStart := fun _ => true
    exits := fun _ => false
    eolSeq := fun _ => ['\n'.toUInt8]
    terminate := fun _ s => { s with done := [] }
    setMacroPc_setMacroPc := fun _ _ _ => rfl }

theorem recorder_restores (view : Parser.CmdlineView) (s : Recording) :
    RestoresAt recorder.Same (recorder.step view) s := by
  change RestoresAt recorder.Same (Recording.step view) s
  unfold RestoresAt Recording.step
  cases view.str[view.pc]? with
  | none => trivial
  | some b =>
      dsimp only
      by_cases hclose : b = 0x7D
      · rw [if_pos hclose]
        exact fun u hu => hu
      · rw [if_neg hclose]
        by_cases hfails : b = 0x29
        · rw [if_pos hfails]
          exact fun u hu => hu
        · rw [if_neg hfails]
          exact fun u _ => rfl

/-- Only the byte at the program counter is looked at. -/
theorem recorder_steady (c : Cmdline Recording) : Steady recorder c := by
  intro text chr behind _ hstr _ hlt
  refine ⟨?_, fun _ _ _ _ => rfl⟩
  have hsame : c.view.str[c.view.pc]? =
      (viewOf (encoded (text ++ [chr])) c.pc).str[c.pc]? := by
    change c.str[c.pc]? = (encoded (text ++ [chr]))[c.pc]?
    have hsplit : text ++ chr :: behind = (text ++ [chr]) ++ behind := by
      rw [List.append_assoc, List.singleton_append]
    rw [hstr, hsplit, encoded_append (text ++ [chr]) behind,
      List.getElem?_append_left hlt]
  change Recording.step _ _ = Recording.step _ _
  unfold Recording.step
  rw [hsame]
  rfl

/-- Only the byte `}` exchanges the command line. -/
theorem Recording.step_cmdline {view : Parser.CmdlineView}
    {s t : Recording} {e : TecoError} {tokens : List (Recording -> Recording)}
    (h : Recording.step view s = .error e t tokens)
    (hcode : e.code = ErrorCode.cmdline) : view.str[view.pc]? = some 0x7D := by
  unfold Recording.step at h
  cases hbyte : view.str[view.pc]? with
  | none =>
      rw [hbyte] at h
      cases h
  | some b =>
      rw [hbyte] at h
      dsimp only at h
      split at h
      case isTrue hclose => rw [hclose]
      case isFalse =>
          split at h
          case isTrue =>
              cases h
              cases hcode
          case isFalse => cases h

theorem recorder_safePass {l : Insertion Recording}
    (hbyte : l.cmdline.str[l.cmdline.pc]? ≠ some 0x7D)
    (hold : l.oldCmdline = []) : SafePass recorder l where
  restores := recorder_restores _ _
  steady := recorder_steady _
  exchange := by
    intro e c hrun hcode
    rcases onMachine_eq_error hrun with ⟨t, tokens, heads, hstep, _⟩
    exact absurd (Recording.step_cmdline hstep hcode) hbyte
  replay := fun _ _ _ _ hne => absurd hold hne

end Cmdline
end SciTECO
