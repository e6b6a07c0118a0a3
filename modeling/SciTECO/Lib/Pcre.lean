import Mathlib.Data.List.Basic
import Mathlib.Tactic.Common

/-!
# Syntax of PCRE patterns

A pattern is read as PCRE reads it with `DOTALL` and `ANCHORED`: atoms, which
may be repeated by a star, and the anchors.  The bracket expressions are those
of literal members and ranges.  Groups, alternatives, the other repetitions and
escapes of letters and digits are beyond the fragment and are not judged.
-/

namespace Pcre

/-- Why a pattern is not read. -/
inductive SyntaxError where
  | missingBracket
  | rangeOutOfOrder
  | posixOutsideClass
  | trailingBackslash
  | beyondFragment
deriving DecidableEq, Repr

/-- A member of a bracket expression. -/
inductive ClassItem where
  | single (c : Char)
  | range (first last : Char)
deriving DecidableEq, Repr

inductive Token where
  | any
  | literal (c : Char)
  | set (negated : Bool) (items : List ClassItem)
  | star
  | lineStart
  | lineEnd
deriving DecidableEq, Repr

/-- The members which are still open: one which may begin a range, or one with
the hyphen behind it. -/
inductive Pending where
  | nothing
  | member (c : Char)
  | hyphen (c : Char)
deriving DecidableEq, Repr

/-- What has been read of a bracket expression. -/
structure OpenClass where
  negated : Bool
  items : List ClassItem
  pending : Pending
deriving DecidableEq, Repr

namespace OpenClass

/-- A class of which nothing but the bracket and the negation is read. -/
def start (negated : Bool) : OpenClass :=
  { negated := negated, items := [], pending := .nothing }

/-- A literal member ends a range or may begin one. -/
def literal (c : Char) (cls : OpenClass) : Except SyntaxError OpenClass :=
  match cls.pending with
  | .nothing => .ok { cls with pending := .member c }
  | .member a =>
      .ok { cls with items := cls.items ++ [.single a], pending := .member c }
  | .hyphen a =>
      if c < a then .error .rangeOutOfOrder
      else .ok { cls with items := cls.items ++ [.range a c], pending := .nothing }

/-- A hyphen stands for itself except behind a member which is not the end of
a range. -/
def minus (cls : OpenClass) : Except SyntaxError OpenClass :=
  match cls.pending with
  | .member a => .ok { cls with pending := .hyphen a }
  | _ => cls.literal '-'

/-- The closing bracket.  A hyphen in front of it stands for itself. -/
def close (cls : OpenClass) : Token :=
  match cls.pending with
  | .nothing => .set cls.negated cls.items
  | .member a => .set cls.negated (cls.items ++ [.single a])
  | .hyphen a => .set cls.negated (cls.items ++ [.single a, .single '-'])

/-- A member which is written as it is or escaped. -/
def add (c : Char) (cls : OpenClass) : Except SyntaxError OpenClass :=
  if c = '-' then cls.minus else cls.literal c

/-- Several members. -/
def addAll : List Char -> OpenClass -> Except SyntaxError OpenClass
  | [], cls => .ok cls
  | c :: rest, cls => (cls.add c).bind (addAll rest)

end OpenClass

/-! ## The members of a class -/

/-- No range among the members ends in front of its beginning. -/
def RangesOrdered : List Char -> Prop
  | a :: '-' :: b :: rest => a ≤ b ∧ RangesOrdered rest
  | _ :: rest => RangesOrdered rest
  | [] => True

/-- The members and ranges which are written one after the other. -/
def classItems : List Char -> List ClassItem
  | a :: '-' :: b :: rest => .range a b :: classItems rest
  | a :: rest => .single a :: classItems rest
  | [] => []

theorem rangesOrdered_cons_cons {a c : Char} (hc : c ≠ '-')
    (rest : List Char) :
    RangesOrdered (a :: c :: rest) <-> RangesOrdered (c :: rest) := by
  rw [RangesOrdered]
  intro b tail h
  cases h
  exact hc rfl

theorem classItems_cons_cons {a c : Char} (hc : c ≠ '-') (rest : List Char) :
    classItems (a :: c :: rest) = .single a :: classItems (c :: rest) := by
  rw [classItems]
  intro b tail h
  cases h
  exact hc rfl

theorem getLast?_cons_ne {c t : Char} (hc : c ≠ t) (members : List Char) :
    (c :: members).getLast? = some t <-> members.getLast? = some t := by
  cases members with
  | nil => simp [hc]
  | cons d members => simp [List.getLast?_cons_cons]

theorem pair_infix_cons {a t c : Char} (members : List Char) :
    [a, t] <:+: c :: members <->
      (a = c ∧ members.head? = some t) ∨ [a, t] <:+: members := by
  rw [List.infix_cons_iff, List.cons_prefix_cons]
  cases members with
  | nil => simp
  | cons d members => simp [List.cons_prefix_cons, eq_comm]

namespace OpenClass

/-- What has been written of the members which are still open. -/
def pendingText : Pending -> List Char
  | .nothing => []
  | .member a => [a]
  | .hyphen a => [a, '-']

/-- Reading members succeeds unless a range is in reverse order. -/
theorem addAll_ok (members : List Char) :
    forall cls : OpenClass,
      RangesOrdered (pendingText cls.pending ++ members) ->
      exists cls', cls.addAll members = .ok cls' ∧
        cls'.close = .set cls.negated
          (cls.items ++ classItems (pendingText cls.pending ++ members)) := by
  induction members with
  | nil =>
      intro cls _
      exists cls
      constructor
      · rfl
      · rcases cls with ⟨negated, items, pending⟩
        cases pending with
        | nothing => simp [close, pendingText, classItems]
        | member a => simp [close, pendingText, classItems]
        | hyphen a => simp [close, pendingText, classItems]
  | cons c members ih =>
      intro cls hordered
      rcases cls with ⟨negated, items, pending⟩
      by_cases hminus : c = '-'
      · subst c
        cases pending with
        | nothing => exact ih ⟨negated, items, .member '-'⟩ hordered
        | member a => exact ih ⟨negated, items, .hyphen a⟩ hordered
        | hyphen a =>
            rcases hordered with ⟨hle, hrest⟩
            rcases ih ⟨negated, items ++ [.range a '-'], .nothing⟩ hrest with
              ⟨cls', hadd, hclose⟩
            exists cls'
            constructor
            · simp [addAll, add, minus, literal, Char.not_lt.mpr hle, hadd,
                Except.bind]
            · simpa [pendingText, classItems] using hclose
      · cases pending with
        | nothing =>
            rcases ih ⟨negated, items, .member c⟩ hordered with
              ⟨cls', hadd, hclose⟩
            exists cls'
            constructor
            · simp [addAll, add, literal, hminus, hadd, Except.bind]
            · exact hclose
        | member a =>
            have hrest := (rangesOrdered_cons_cons hminus members).mp hordered
            rcases ih ⟨negated, items ++ [.single a], .member c⟩ hrest with
              ⟨cls', hadd, hclose⟩
            exists cls'
            constructor
            · simp [addAll, add, literal, hminus, hadd, Except.bind]
            · simpa [pendingText, classItems_cons_cons hminus] using hclose
        | hyphen a =>
            rcases hordered with ⟨hle, hrest⟩
            rcases ih ⟨negated, items ++ [.range a c], .nothing⟩ hrest with
              ⟨cls', hadd, hclose⟩
            exists cls'
            constructor
            · simp [addAll, add, literal, hminus, Char.not_lt.mpr hle, hadd,
                Except.bind]
            · simpa [pendingText, classItems] using hclose

theorem addAll_error (members : List Char) :
    forall cls : OpenClass,
      ¬ RangesOrdered (pendingText cls.pending ++ members) ->
      exists e, cls.addAll members = .error e := by
  induction members with
  | nil =>
      intro cls hordered
      exfalso
      apply hordered
      cases cls.pending with
      | nothing => trivial
      | member a => trivial
      | hyphen a => trivial
  | cons c members ih =>
      intro cls hordered
      rcases cls with ⟨negated, items, pending⟩
      cases hadd : OpenClass.add c ⟨negated, items, pending⟩ with
      | error e =>
          exists e
          simp [addAll, hadd, Except.bind]
      | ok cls' =>
          have hrest : ¬ RangesOrdered (pendingText cls'.pending ++ members) := by
            intro h
            apply hordered
            by_cases hminus : c = '-'
            · subst c
              cases pending with
              | nothing => cases hadd; exact h
              | member a => cases hadd; exact h
              | hyphen a =>
                  simp only [add, minus, literal, if_true] at hadd
                  split at hadd
                  · cases hadd
                  · cases hadd
                    exact ⟨Char.not_lt.mp ‹_›, h⟩
            · simp only [add, literal, hminus, if_false] at hadd
              cases pending with
              | nothing => cases hadd; exact h
              | member a =>
                  cases hadd
                  exact (rangesOrdered_cons_cons hminus members).mpr h
              | hyphen a =>
                  dsimp only at hadd
                  split at hadd
                  · cases hadd
                  · cases hadd
                    exact ⟨Char.not_lt.mp ‹_›, h⟩
          rcases ih cls' hrest with ⟨e, he⟩
          exists e
          simp [addAll, hadd, he, Except.bind]

end OpenClass

/-! ## Reading a pattern -/

/-- Where in a pattern a character is read. -/
inductive Mode where
  /-- `repeatable` tells whether an atom has just been read. -/
  | outside (repeatable : Bool)
  | escape
  /-- Behind the opening bracket. -/
  | opening
  /-- Behind the opening bracket and a negation: a closing bracket is a
  member here. -/
  | first (negated : Bool)
  | inside (cls : OpenClass)
  | insideEscape (cls : OpenClass)
deriving DecidableEq, Repr

/-- The rest of a POSIX class name such as `[:alpha:]`, read behind its first
terminator. -/
def posixName (terminator : Char) : List Char -> Bool
  | c :: next :: rest =>
      if c = '\\' ∧ (next = ']' ∨ next = '\\') then posixName terminator rest
      else if (c = '[' ∧ next = terminator) ∨ c = ']' then false
      else if c = terminator ∧ next = ']' then true
      else posixName terminator (next :: rest)
  | _ => false

/-- The characters which delimit the name of a POSIX class. -/
def isPosixDelimiter (c : Char) : Bool :=
  c = ':' || c = '.' || c = '='

/-- Whether a POSIX class name stands behind a bracket. -/
def posixSyntax : List Char -> Bool
  | [] => false
  | c :: rest => isPosixDelimiter c && posixName c rest

/-- A member of a bracket expression as it is written. -/
def readMember (cls : OpenClass) (c : Char) (rest : List Char) :
    Except SyntaxError Mode :=
  if c = '\\' then .ok (.insideEscape cls)
  else if c = '[' ∧ posixSyntax rest then .error .beyondFragment
  else (cls.add c).map Mode.inside

/-- Read one character, in front of the others. -/
def readChar (mode : Mode) (c : Char) (rest : List Char) :
    Except SyntaxError (Option Token × Mode) :=
  match mode with
  | .outside repeatable =>
      if c = '\\' then .ok (none, .escape)
      else if c = '[' then
        if posixSyntax rest then .error .posixOutsideClass
        else .ok (none, .opening)
      else if c = '.' then .ok (some .any, .outside true)
      else if c = '*' then
        if repeatable then .ok (some .star, .outside false)
        else .error .beyondFragment
      else if c = '^' then .ok (some .lineStart, .outside false)
      else if c = '$' then .ok (some .lineEnd, .outside false)
      else if c ∈ ['|', '(', ')', '?', '+', '{'] then .error .beyondFragment
      else .ok (some (.literal c), .outside true)
  | .escape =>
      if c.isAlphanum then .error .beyondFragment
      else .ok (some (.literal c), .outside true)
  | .opening =>
      if c = '^' then .ok (none, .first true)
      else (readMember (.start false) c rest).map fun mode => (none, mode)
  | .first negated =>
      (readMember (.start negated) c rest).map fun mode => (none, mode)
  | .inside cls =>
      if c = ']' then .ok (some cls.close, .outside true)
      else (readMember cls c rest).map fun mode => (none, mode)
  | .insideEscape cls =>
      if c.isAlphanum then .error .beyondFragment
      else (cls.literal c).map fun cls => (none, .inside cls)

/-- The end of a pattern. -/
def atEnd : Mode -> Except SyntaxError (List Token)
  | .outside _ => .ok []
  | .escape => .error .trailingBackslash
  | _ => .error .missingBracket

/-- Read a pattern from a mode on. -/
def parseFrom (mode : Mode) : List Char -> Except SyntaxError (List Token)
  | [] => atEnd mode
  | c :: rest =>
      match readChar mode c rest with
      | .error e => .error e
      | .ok (token, mode') =>
          match parseFrom mode' rest with
          | .error e => .error e
          | .ok tokens => .ok (token.toList ++ tokens)

theorem parseFrom_silent {mode mode' : Mode} {c : Char} {rest : List Char}
    (h : readChar mode c rest = .ok (none, mode')) :
    parseFrom mode (c :: rest) = parseFrom mode' rest := by
  simp only [parseFrom, h]
  cases parseFrom mode' rest with
  | error e => rfl
  | ok tokens => rfl

theorem parseFrom_token {mode mode' : Mode} {c : Char} {rest : List Char}
    {token : Token} (h : readChar mode c rest = .ok (some token, mode')) :
    parseFrom mode (c :: rest) =
      (parseFrom mode' rest).map fun tokens => token :: tokens := by
  simp only [parseFrom, h]
  cases parseFrom mode' rest with
  | error e => rfl
  | ok tokens => rfl

theorem parseFrom_error {mode : Mode} {c : Char} {rest : List Char}
    {e : SyntaxError} (h : readChar mode c rest = .error e) :
    parseFrom mode (c :: rest) = .error e := by
  simp only [parseFrom, h]

theorem parseFrom_escaped {c : Char} (hc : c.isAlphanum = false)
    (repeatable : Bool) (rest : List Char) :
    parseFrom (.outside repeatable) ('\\' :: c :: rest) =
      (parseFrom (.outside true) rest).map fun tokens =>
        .literal c :: tokens := by
  have hescape (text : List Char) :
      readChar (.outside repeatable) '\\' text = .ok (none, .escape) := by
    simp [readChar]
  have hliteral : readChar .escape c rest =
      .ok (some (.literal c), .outside true) := by
    simp [readChar, hc]
  rw [parseFrom_silent (hescape _)]
  exact parseFrom_token hliteral

theorem parseFrom_dot (repeatable : Bool) (rest : List Char) :
    parseFrom (.outside repeatable) ('.' :: rest) =
      (parseFrom (.outside true) rest).map fun tokens => .any :: tokens := by
  have hdot : readChar (.outside repeatable) '.' rest =
      .ok (some .any, .outside true) := by
    simp [readChar]
  exact parseFrom_token hdot

theorem parseFrom_star (rest : List Char) :
    parseFrom (.outside true) ('*' :: rest) =
      (parseFrom (.outside false) rest).map fun tokens => .star :: tokens := by
  have hstar : readChar (.outside true) '*' rest =
      .ok (some .star, .outside false) := by
    simp [readChar]
  exact parseFrom_token hstar

/-- Read a whole pattern. -/
def parse (pattern : List Char) : Except SyntaxError (List Token) :=
  parseFrom (.outside false) pattern

/-- The pattern is read without an error. -/
def Valid (pattern : List Char) : Prop :=
  exists tokens, parse pattern = .ok tokens

instance (pattern : List Char) : Decidable (Valid pattern) :=
  match h : parse pattern with
  | .ok tokens => .isTrue ⟨tokens, h⟩
  | .error e => .isFalse (by
      rintro ⟨tokens, ht⟩
      rw [h] at ht
      cases ht)

end Pcre
