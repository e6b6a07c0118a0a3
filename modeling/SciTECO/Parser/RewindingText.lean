import SciTECO.Parser.Rewinding

/-!
# Rewinding arguments

A string argument is saved piece by piece.  At its end the nesting is reset
without a token: the character which has ended the argument has saved it.
-/

namespace SciTECO
namespace Parser

open Undoable
open QReg (Table)

variable {W Reg : Type} {host : Host W Reg} {env : Env} {tol : Tolerance W}
  {argument : Bytes × Nat × Int -> Bytes × Nat × Int -> Prop}

/-!
## Callbacks
-/

section Callbacks

variable (hundo : env.mustUndo = true)

include hundo

end Callbacks

/-!
## The string building machine

The callbacks behind an argument leave the string building machine alone.
-/

def State.building (s : State W Reg) : StringBuilding Reg :=
  s.machine.expectstring.machine

/-- The same has been read of the argument: `front` is what is compared of the
string, and the nesting is only compared if that is asked for. -/
structure SameArgument (front : Bytes -> Bytes) (nested : Bool)
    (a b : Bytes × Nat × Int) : Prop where
  string : front a.1 = front b.1
  insertLen : a.2.1 = b.2.1
  nesting : nested = true -> a.2.2 = b.2.2

theorem SameArgument.weaken {nested : Bool} {a b : Bytes × Nat × Int}
    (h : SameArgument id nested a b) (front : Bytes -> Bytes) :
    SameArgument front nested a b :=
  { h with string := congrArg front h.string }

theorem StringBuilding.AllGlobal.mapCore {sb : StringBuilding Reg}
    (h : sb.AllGlobal) (f : SBCore -> SBCore) : (sb.mapCore f).AllGlobal := by
  cases sb <;> exact h

section Strings

variable (hundo : env.mustUndo = true)

include hundo

variable (hhost : host.Rewinds env tol)

include hhost

end Strings

end Parser
end SciTECO
