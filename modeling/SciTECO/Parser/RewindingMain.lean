import SciTECO.Parser.LoopStack
import SciTECO.Parser.RewindingText
import SciTECO.Parser.Tidy

/-!
# Rewinding commands

A command is taken back by its tokens, whether it has succeeded or not.  There
are two exceptions, both when it fails: `;` has left its loop before it can be
saved, and what returns from the macro has changed the state of the machine.
-/

namespace SciTECO

namespace Expressions

open Undoable

variable {level : Bool}

/-!
## Arithmetic commands
-/

end Expressions

namespace Parser

open Undoable
open QReg (Table)

variable {W Reg : Type} {host : Host W Reg} {env : Env} {tol : Tolerance W}
  {argument : Bytes × Nat × Int -> Bytes × Nat × Int -> Prop}

/-!
## Register arguments
-/

section Callbacks

variable (hundo : env.mustUndo = true)

include hundo

variable (hhost : host.Rewinds env tol)

include hhost

end Callbacks

/-!
## Loops
-/

section Loops

variable (hundo : env.mustUndo = true)

include hundo

end Loops

/-!
## Transitions
-/

/-- Whether a callback which fails has saved what it has changed. -/
def Callback.Saves (s : State W Reg) : Callback -> Prop
  | .loopBreak => False
  | .fcommandLoopEnd => s.ownLoops ≠ []
  | _ => True

section Commands

variable (hundo : env.mustUndo = true) (hhost : host.Rewinds env tol)

variable [DecidableEq Reg]

include hundo hhost

end Commands

end Parser
end SciTECO
