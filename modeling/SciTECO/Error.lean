import Mathlib.Algebra.Group.Int.Defs
import Mathlib.Algebra.GroupWithZero.Nat
import SciTECO.Lib.Undoable

/-!
# Errors

The error codes of `error.h`, and the ways in which a run of the program can
crash instead of reporting an error.
-/

namespace SciTECO

/-- `teco_error_t`. -/
inductive ErrorCode where
  | failed
  | syntaxError
  | modifier
  | argExpected
  | label
  | codepoint
  | move
  | words
  | range
  | subpattern
  | invalidBuf
  | invalidQReg
  | qregOpUnsupported
  | qregContainsNull
  | editingLocalQReg
  | memLimit
  | clipboard
  | win32
  | moduleError
  | interrupted
  | cmdline
  | returned
  | quit
deriving DecidableEq, Repr

/-- A `GError` of the `TECO_ERROR` domain. -/
structure TecoError where
  code : ErrorCode
  message : String
deriving DecidableEq, Repr

/-- An error with the catch-all code `TECO_ERROR_FAILED`. -/
def TecoError.failed (message : String) : TecoError :=
  { code := ErrorCode.failed, message := message }

/-- Behaviour that is no error of the language. -/
inductive Fault where
  /-- `g_assert_not_reached()` was executed. -/
  | assertNotReached
  /-- The condition of a `g_assert()` is false. -/
  | assertion
  /-- An integer division traps. -/
  | arithmeticTrap
  /-- An array is read outside its bounds. -/
  | outOfBounds
  /-- A `NULL` pointer is dereferenced. -/
  | nullPointer
  /-- A loop of the source has used up the fuel of its model. -/
  | outOfFuel
deriving DecidableEq, Repr

/-- A computation of the program over a part `σ` of its state. -/
abbrev Exec (σ α : Type) : Type := Undoable TecoError Fault σ α

end SciTECO
