import SciTECO.Lib.Pcre

/-!
# Compiling glob patterns

`teco_globber_compile_pattern()` translates a glob pattern into a PCRE pattern,
one character after the other.
-/

namespace SciTECO
namespace Glob

open Pcre

/-- The states of the loop in `teco_globber_compile_pattern()`.  `inClass` is
`STATE_CLASS`. -/
inductive CompileState where
  | wildcard
  | classStart
  | classNegate
  | inClass
deriving DecidableEq, Repr

/-- The characters which are escaped outside of a character class. -/
def metacharacters : List Char :=
  ['\\', '^', '$', '.', '|', '(', ')', '+', '{']

/-- One pass of the loop: the next state and what is written.  `rest` is the
pattern behind the character. -/
def compileChar (state : CompileState) (c : Char) (rest : List Char) :
    CompileState × List Char :=
  match state with
  | .wildcard =>
      if c = '*' then (.wildcard, ['.', '*'])
      else if c = '?' then (.wildcard, ['.'])
      else if c = '[' then
        -- `strchr()` finds any closing bracket, not the one of this class.
        if ']' ∈ rest then (.classStart, ['['])
        else (.wildcard, ['\\', '['])
      else if c ∈ metacharacters then (.wildcard, ['\\', c])
      else (.wildcard, [c])
  | state =>
      if c = '!' ∧ state ≠ .classStart then (.inClass, ['!'])
      else if c = '!' ∨ c = '^' then
        (if state = .classStart then .classNegate else .inClass, ['^'])
      else if c = ']' ∧ state = .inClass then (.wildcard, [']'])
      else if c = ']' ∨ c = '\\' ∨ c = '[' then (.inClass, ['\\', c])
      else (.inClass, [c])

/-- The loop, from a state on, with the dollar sign behind it. -/
def compileFrom (state : CompileState) : List Char -> List Char
  | [] => ['$']
  | c :: rest =>
      (compileChar state c rest).2 ++
        compileFrom (compileChar state c rest).1 rest

/-- `teco_globber_compile_pattern()`, up to the call of `g_regex_new()`. -/
def compilePattern (pattern : List Char) : List Char :=
  compileFrom .wildcard pattern

/-- The buffer of two characters for each one of the pattern and one more is
large enough. -/
theorem compileFrom_length (pattern : List Char) :
    forall state, (compileFrom state pattern).length ≤ pattern.length * 2 + 1 := by
  induction pattern with
  | nil =>
      intro state
      simp [compileFrom]
  | cons c rest ih =>
      intro state
      have hchar : (compileChar state c rest).2.length ≤ 2 := by
        cases state <;> simp only [compileChar] <;> split_ifs <;> simp
      have hrest := ih (compileChar state c rest).1
      simp only [compileFrom, List.length_append, List.length_cons]
      omega

theorem compilePattern_length (pattern : List Char) :
    (compilePattern pattern).length ≤ pattern.length * 2 + 1 :=
  compileFrom_length pattern .wildcard

/-!
## Reading a glob pattern

A bracket which is followed by a closing one somewhere opens a class.  Its
first member may be the closing bracket itself.
-/

/-- The negation at the beginning of a class and the text behind it. -/
def negation : List Char -> Bool × List Char
  | '!' :: rest => (true, rest)
  | '^' :: rest => (true, rest)
  | rest => (false, rest)

/-- The members of a class, as far as the closing bracket, and the text behind
it. -/
def splitClass : List Char -> Option (List Char × List Char)
  | [] => none
  | first :: rest =>
      if ']' ∈ rest then
        some (first :: rest.takeWhile (fun c => c ≠ ']'),
          (rest.dropWhile (fun c => c ≠ ']')).tail)
      else none

/-- The class looks like the name of a POSIX class: it has the same delimiter
at both ends and no bracket in front of another one. -/
def PosixLike (members : List Char) : Prop :=
  exists delimiter name,
    members = delimiter :: name ∧ isPosixDelimiter delimiter = true ∧
      name.getLast? = some delimiter ∧ ¬ ['[', delimiter] <:+: name

theorem splitClass_length {text members after : List Char}
    (h : splitClass text = some (members, after)) :
    after.length < text.length := by
  cases text with
  | nil => cases h
  | cons first rest =>
      simp only [splitClass] at h
      split at h
      · cases h
        have hdrop := (List.dropWhile_suffix (l := rest)
          (fun c => decide (c ≠ ']'))).length_le
        rw [List.length_tail, List.length_cons]
        omega
      · cases h

theorem negation_length (text : List Char) :
    (negation text).2.length ≤ text.length := by
  unfold negation
  split <;> simp

/-- Every class of the pattern is closed and is one which PCRE reads. -/
def ClassesSound : List Char -> Prop
  | [] => True
  | c :: rest =>
      if c = '[' ∧ ']' ∈ rest then
        match _h : splitClass (negation rest).2 with
        | none => False
        | some (members, after) =>
            RangesOrdered members ∧
              ((negation rest).1 = false -> ¬ PosixLike members) ∧
              ClassesSound after
      else ClassesSound rest
termination_by pattern => pattern.length
decreasing_by
  · have hsplit := splitClass_length _h
    have hnegation := negation_length rest
    simp only [List.length_cons]
    omega
  · simp

/-- What the pattern stands for, if its classes are sound. -/
def tokens : List Char -> List Token
  | [] => [.lineEnd]
  | c :: rest =>
      if c = '[' ∧ ']' ∈ rest then
        match _h : splitClass (negation rest).2 with
        | none => []
        | some (members, after) =>
            .set (negation rest).1 (classItems members) :: tokens after
      else if c = '*' then .any :: .star :: tokens rest
      else if c = '?' then .any :: tokens rest
      else .literal c :: tokens rest
termination_by pattern => pattern.length
decreasing_by
  · have hsplit := splitClass_length _h
    have hnegation := negation_length rest
    simp only [List.length_cons]
    omega
  all_goals simp

end Glob
end SciTECO
