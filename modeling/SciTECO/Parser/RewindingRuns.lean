import SciTECO.Parser.Discipline
import SciTECO.Parser.Inert
import SciTECO.Parser.ReturnsMain
import SciTECO.Parser.RewindingMain
import SciTECO.Parser.SampleHost
import SciTECO.Parser.Settled

/-!
# Rewinding runs

The characters of the command line are taken back one by one.  A character that
has failed is taken back too.
-/

namespace SciTECO
namespace Parser

open Undoable
open QReg (Table)

variable {W Reg : Type} {host : Host W Reg} {env : Env} {tol : Tolerance W}
  {argument : Bytes × Nat × Int -> Bytes × Nat × Int -> Prop}

/-!
## Tables
-/

section Commands

variable (hundo : env.mustUndo = true)

include hundo

end Commands

/-!
## States
-/

section States

variable [DecidableEq Reg] (hundo : env.mustUndo = true)
  (hhost : host.Rewinds env tol)

include hundo hhost

end States

/-!
## Characters
-/

/-- Whether a character that fails has saved what it has changed. -/
def State.Saves (s : State W Reg) (chr : Gunichar) : Prop :=
  match s.machine.current with
  | .start => chr ≠ ';'.toNat
  | .printDecimal => chr ≠ ';'.toNat
  | .printOctal => chr ≠ ';'.toNat
  | .fcommand => chr = '>'.toNat -> s.ownLoops ≠ []
  | .escape => chr ≠ 0x1B ∧ chr ≠ '$'.toNat ∧ chr ≠ ';'.toNat
  | .ctlc => False
  | .ctlcControl => False
  | _ => True

/-- The result tables of all machines that a character resets are global. -/
structure State.Ready (host : Host W Reg) (s : State W Reg)
    (chr : Gunichar) : Prop where
  building : forall cmd, s.machine.current = MainState.expectstring cmd ->
    cmd.stringBuilding = true -> s.building.Ready chr
  ends : forall cmd, s.machine.current = MainState.expectstring cmd ->
    cmd.stringBuilding = true ->
    s.toSyntax.EndsString host.glib.toUpper chr -> s.building.AllGlobal
  specification : forall cmd spec,
    s.machine.current = MainState.expectqreg cmd ->
    s.machine.expectqreg = some spec -> spec.Ready chr

section Characters

variable [DecidableEq Reg] (hundo : env.mustUndo = true)
  (hhost : host.Rewinds env tol)

include hundo hhost

end Characters

/-!
## Runs
-/

section Runs

variable [DecidableEq Reg]

/-- Characters are executed without an error, and strings are processed in
between.  Every step may have a command line and a text of its own. -/
inductive Typed (host : Host W Reg) :
    State W Reg -> State W Reg -> List (State W Reg -> State W Reg) -> Prop
  | nil (s : State W Reg) : Typed host s s []
  | character {s t u : State W Reg}
      {earlier later : List (State W Reg -> State W Reg)} (env : Env)
      (text : Bytes) (hundo : env.mustUndo = true)
      (hready : t.Ready host (t.nextChar text)) (h : Typed host s t earlier)
      (hstep : stepCharacter host env text t = .ok () u later) :
      Typed host s u (later ++ earlier)
  | refresh {s t u : State W Reg}
      {earlier later : List (State W Reg -> State W Reg)} (env : Env)
      (hundo : env.mustUndo = true) (h : Typed host s t earlier)
      (hstep : stateRefresh host env t.machine.current t = .ok () u later) :
      Typed host s u (later ++ earlier)

omit [DecidableEq Reg] in
theorem Rewound.refl (hworld : forall w, tol.world w w) (s : State W Reg) :
    Rewound tol (SameArgument id true) s s where
  current := rfl
  flags := rfl
  nestLevel := rfl
  loopStackFp := rfl
  gotoTable := rfl
  gotoComplete := rfl
  gotoLabel := rfl
  gotoSkipLabel := rfl
  gotoBackupPc := rfl
  argument := ⟨rfl, rfl, fun _ => rfl⟩
  building := StringBuilding.Same.refl _
  expectqreg := by
    cases s.machine.expectqreg with
    | none => exact Option.Rel.none
    | some spec => exact Option.Rel.some (QRegSpec.Same.refl spec)
  editor := ⟨rfl, rfl, hworld _⟩

end Runs

/-!
## An insertion
-/

end Parser
end SciTECO
