import SciTECO.Parser.Coherent
import SciTECO.Parser.Tidy

/-!
# Between two characters

An argument is read with a nesting that is not 0, and a register specification
is only begun where there is none.
-/

namespace SciTECO
namespace Parser

open Undoable
open QReg (Table)

variable {W Reg : Type} {host : Host W Reg} {env : Env}

/-!
## Syntax
-/

namespace Syntax

variable {y w z : Syntax} {n : MainState} {chr : Gunichar}
  {toUpper : Gunichar -> Gunichar}

end Syntax

/-!
## States
-/

/-- What holds between two characters of the command line. -/
structure Settled (s : State W Reg) : Prop where
  coherent : Coherent s
  tidy : s.toSyntax.Tidy
  nesting : s.machine.expectstring.nesting ≠ 0

theorem Settled.processes {s : State W Reg} (h : Settled s)
    (chr : Gunichar) : s.mode ≠ Mode.normal -> Processes host env s chr :=
  fun hmode => processes_of_insertLen (h.coherent.skipped hmode)

section Steps

variable [DecidableEq Reg]

end Steps

end Parser
end SciTECO
