import SciTECO.Lib.PcreEscapes

/-!
# Escaped text in a class

Between brackets escaped text stands for its characters, unless a hyphen makes
a range, the escape of a NUL is merged with a digit, or the brackets look like
those of a POSIX class name.
-/

namespace Pcre

/-! ## The members -/

/-- The modes in which a member is read, and the class it is added to. -/
inductive Opens : Mode -> OpenClass -> Prop where
  | inside (cls : OpenClass) : Opens (.inside cls) cls
  | first (negated : Bool) : Opens (.first negated) (.start negated)
  | opening : Opens .opening (.start false)

/-- The members which a class has if it is closed. -/
def OpenClass.size (cls : OpenClass) : Nat :=
  match cls.pending with
  | .nothing => cls.items.length
  | .member _ => cls.items.length + 1
  | .hyphen _ => cls.items.length + 2

/-- What stands in front of the members. -/
def opening (negated : Bool) : List Char :=
  if negated then ['[', '^'] else ['[']

end Pcre
