import SciTECO.Expressions.Retained
import SciTECO.Expressions.Commas

/-!
# Returning from macros

`$$` resolves its arguments, and the caller of the macro unwinds the braces
which are still open.  What the macro has put on the stacks is on the top of
those of its caller.
-/

namespace SciTECO
namespace Expressions

open Undoable

/-- `teco_return()`, and what `teco_execute_macro()` does about it. -/
def macroReturn (parentBraceLevel : Nat) : Exec Expressions Unit := do
  eval false
  let s <- get
  braceReturn parentBraceLevel s.args

/-- What a macro has put on the stacks of its caller when it executes
`a1,...,ak$$`.  No sign waits for a number behind the arguments. -/
structure MacroPart (caller inner : Expressions) : Prop where
  callerNumbers :
    caller.operators.count Operator.number = caller.numbers.length
  numbers : inner.operators.count Operator.number = inner.numbers.length
  separated : Separated (onTop caller inner)
  sign : 0 ≤ inner.numSign
  level : caller.braceLevel ≤ inner.braceLevel
  braces : inner.braceLevel - caller.braceLevel ≤
    inner.operators.count Operator.brace

/-- The stacks are those of the caller with the arguments which are on the top
of `u`. -/
structure Kept (caller u t : Expressions) : Prop where
  operators : t.operators =
    List.replicate u.args Operator.number ++ caller.operators
  numbers : t.numbers = u.numbers.take u.args ++ caller.numbers
  braceLevel : t.braceLevel = caller.braceLevel

variable {caller inner s u : Expressions}

/-! ## The sign -/

/-- What a macro has done to the stacks by calls which all succeed. -/
theorem MacroPart.of_reachable
    (hcaller : Reachable Call.ClosesCleanly caller)
    (hinner : Reachable Call.ClosesCleanly (onTop caller inner))
    (hsign : 0 ≤ inner.numSign)
    (hlevel : caller.braceLevel ≤ inner.braceLevel) :
    MacroPart caller inner := by
  have hlower := reachable_balanced hcaller
  have hwhole := reachable_balanced hinner
  have hnumbers := hwhole.numbers
  have hbraces := hwhole.braces
  rw [onTop_operators, onTop_numbers, List.count_append, List.length_append,
    hlower.numbers] at hnumbers
  rw [onTop_operators, onTop_braceLevel, List.count_append, hlower.braces]
    at hbraces
  constructor
  · exact hlower.numbers
  · exact Nat.add_right_cancel hnumbers
  · exact reachable_separated hinner
  · exact hsign
  · exact hlevel
  · omega

end Expressions
end SciTECO
