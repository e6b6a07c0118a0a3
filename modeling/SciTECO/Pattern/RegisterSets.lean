import SciTECO.Lib.PcreClasses
import SciTECO.Pattern.Literal

/-!
# Sets of the characters in a register

^EGq is translated into a class with the escaped string of the register between
its brackets, and ^N^EGq into the negation of the class.
-/

namespace SciTECO
namespace Pattern

open Encodings

/-! ## Classes of characters -/

section Translation

variable {S : Type} {regexEscapeString : Bytes -> Bytes}
  {qregMachine : SpecMachine S} {codepage : Encoding} {string rest : Bytes}

end Translation

/-! ## Samples -/

end Pattern
end SciTECO
