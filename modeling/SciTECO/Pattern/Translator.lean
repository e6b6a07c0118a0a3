import SciTECO.Lib.Utf8
import SciTECO.Strings

/-!
# Translating search patterns

`teco_pattern2regexp()` translates a search pattern into a regular expression.
It reads the pattern byte by byte, and character by character where a character
is taken literally.  An empty result means that the pattern is incomplete.
-/

namespace SciTECO
namespace Pattern

open Encodings

/-- How a translation ends without a regular expression. -/
inductive Failure where
  | error (err : TecoError)
  | fault (fault : Fault)
deriving DecidableEq, Repr

/-- `teco_search_state_t`. -/
inductive SearchState where
  | start
  | ctl
  | escape
  | not
  | ctlE
  | anyQ
  | many
  | alt
deriving DecidableEq, Repr

/-- `teco_machine_qregspec_status_t`.  A complete name comes with the string of
its register, and it is an error if the register has none. -/
inductive SpecStatus (S : Type) where
  | error (err : TecoError)
  | more (machine : S)
  | done (string : Bytes)

/-- `teco_machine_qregspec_input()`, from the machine that
`teco_machine_qregspec_reset()` leaves behind. -/
structure SpecMachine (S : Type) where
  reset : S
  input : S -> Gunichar -> SpecStatus S

/-- What the two functions share: their state, the pattern in memory in front of
the cursor and behind it, and the machine for register names. -/
structure Scanner (S : Type) where
  state : SearchState
  passed : Bytes
  pattern : Bytes
  machine : S
deriving DecidableEq, Repr

/-- The cursor passes some bytes. -/
def Scanner.advance {S : Type} (s : Scanner S) (count : Nat) : Scanner S :=
  { s with
    passed := s.passed ++ s.pattern.take count
    pattern := s.pattern.drop count }

/-! ## Characters -/

/-- The length of the first character. -/
def charLength (codepage : Encoding) (pattern : Bytes) : Nat :=
  match codepage with
  | .utf8 => utf8Skip (pattern.headD 0)
  | .singleByte => 1

def firstChar (codepage : Encoding) (pattern : Bytes) : Bytes :=
  pattern.take (charLength codepage pattern)

def behindChar (codepage : Encoding) (pattern : Bytes) : Bytes :=
  pattern.drop (charLength codepage pattern)

/-- The cursor passes a character. -/
def Scanner.advanceChar {S : Type} (codepage : Encoding) (s : Scanner S) :
    Scanner S :=
  s.advance (charLength codepage s.pattern)

/-- A `gchar` as a `gunichar`. -/
def signedChar (b : UInt8) : Gunichar :=
  if b < 0x80 then b.toNat else b.toNat + 0xFFFFFF00

/-- The first character, as it is passed to the machine for register names. -/
def charCode (codepage : Encoding) (pattern : Bytes) : Gunichar :=
  match codepage with
  | .utf8 => utf8GetChar pattern
  | .singleByte => signedChar (pattern.headD 0)

/-- `TECO_CTL_KEY()` of an ASCII character. -/
def ctl (c : Char) : UInt8 := UInt8.ofNat (ctlKey c.toNat)

/-- The character by which a byte is compared without regard to its case. -/
def upperKey (b : UInt8) : Option Char := ascii (asciiToUpper b.toNat)

/-- The head of the pattern is treated like a control character. -/
def controlHead : Bytes -> Bytes
  | [] => []
  | b :: rest => UInt8.ofNat (ctlKey (asciiToUpper b.toNat)) :: rest

/-! ## Classes -/

/-- The classes which consist of ^E and a letter. -/
def ctlEClass (b : UInt8) : Option Bytes :=
  match upperKey b with
  | some 'A' => some (utf8 "[:alpha:]")
  | some 'B' => some (utf8 "[:^alnum:]")
  | some 'C' => some (utf8 "[:alnum:].$")
  | some 'D' => some (utf8 "[:digit:]")
  | some 'L' => some [0x0D, 0x0A, 0x0B, 0x0C]
  | some 'R' => some (utf8 "[:alnum:]")
  | some 'V' => some (utf8 "[:lower:]")
  | some 'W' => some (utf8 "[:upper:]")
  | _ => none

section Translation

variable {S : Type} (regexEscapeString : Bytes -> Bytes)
  (qregMachine : SpecMachine S) (codepage : Encoding)

/-- `teco_class2regexp()`, where `regexEscapeString` is
`g_regex_escape_string()`. -/
def class2Regexp (escapeDefault : Bool) :
    Nat -> Scanner S -> Except Failure (Bytes × Scanner S)
  | 0, _ => .error (.fault .outOfFuel)
  | fuel + 1, s =>
      match s.pattern, s.state with
      | [], _ => .ok ([], s)
      | b :: _, .start =>
          if b = ctl 'S' then .ok (utf8 "[:^alnum:]", s.advance 1)
          else if b = ctl 'E' then
            class2Regexp escapeDefault fuel { s.advance 1 with state := .ctlE }
          else if escapeDefault then
            .ok (regexEscapeString (firstChar codepage s.pattern),
              s.advanceChar codepage)
          else .ok ([], s)
      | b :: _, .ctlE =>
          if upperKey b = some 'G' then
            class2Regexp escapeDefault fuel { s.advance 1 with state := .anyQ }
          else
            match ctlEClass b with
            | some cls => .ok (cls, { s.advance 1 with state := .start })
            -- It could still be a higher-level ^E pattern.
            | none => .ok ([], s)
      | _ :: _, .anyQ =>
          match qregMachine.input s.machine (charCode codepage s.pattern) with
          | .error err => .error (.error err)
          | .more machine =>
              class2Regexp escapeDefault fuel
                { s.advanceChar codepage with machine := machine }
          | .done string =>
              .ok (regexEscapeString string,
                { s.advanceChar codepage with
                  state := .start
                  machine := qregMachine.reset })
      | _ :: _, _ => .ok ([], s)

/-- The call of `teco_class2regexp()` with enough fuel: every pass of its loop
takes a byte. -/
def classAt (escapeDefault : Bool) (s : Scanner S) :
    Except Failure (Bytes × Scanner S) :=
  class2Regexp regexEscapeString qregMachine codepage escapeDefault
    (s.pattern.length + 1) s

/-! ## Patterns -/

/-- Where a pass of the loop in `teco_pattern2regexp()` ends. -/
inductive Pass (S : Type) where
  /-- At the condition of the loop. -/
  | condition (s : Scanner S) (re : Bytes)
  /-- At the end of the pattern. -/
  | endOfPattern (s : Scanner S) (re : Bytes)
  /-- An empty string is returned. -/
  | incomplete (s : Scanner S)

/-- A class was translated: the scanner must be back in its initial state. -/
def appendClass (re prefixed cls : Bytes) (s : Scanner S) :
    Except Failure (Pass S) :=
  if s.state = .start then .ok (.condition s (re ++ prefixed ++ cls ++ utf8 "]"))
  else .error (.fault .assertion)

/-- A pattern element in `TECO_SEARCH_STATE_CTL_E`. -/
def passCtlE (b : UInt8) (s : Scanner S) (re : Bytes) :
    Except Failure (Pass S) :=
  match upperKey b with
  | some 'M' => .ok (.condition { s with state := .many } re)
  | some 'S' => .ok (.condition { s with state := .start } (re ++ utf8 "\\s+"))
  | some 'X' => .ok (.condition { s with state := .start } (re ++ utf8 "."))
  | some '[' => .ok (.condition { s with state := .alt } (re ++ utf8 "("))
  | _ => .error (.error (TecoError.syntaxError (signedChar b)))

/-- The switch over the state.  `nested` is the recursive call, which reads a
single expression. -/
def passState (nested : Scanner S -> Except Failure (Bytes × Scanner S))
    (b : UInt8) (s : Scanner S) (re : Bytes) : Except Failure (Pass S) :=
  match s.state with
  | .start =>
      if b = '^'.toUInt8 then
        .ok (.condition { s.advance 1 with state := .ctl } re)
      else if b = ctl 'Q' ∨ b = ctl 'R' then
        .ok (.condition { s.advance 1 with state := .escape } re)
      else if b = ctl 'X' then
        .ok (.condition (s.advance 1) (re ++ utf8 "."))
      else if b = ctl 'N' then
        .ok (.condition { s.advance 1 with state := .not } re)
      else .ok (.condition { s with state := .escape } re)
  | .escape =>
      .ok (.condition { s.advanceChar codepage with state := .start }
        (re ++ regexEscapeString (firstChar codepage s.pattern)))
  | .not => do
      let (cls, s) <- classAt regexEscapeString qregMachine codepage true
        { s with state := .start }
      -- A complete class is strictly required.
      if cls = [] then .ok (.incomplete s)
      else appendClass re (utf8 "[^") cls s
  | .ctlE => passCtlE b (s.advance 1) re
  | .many => do
      let (temp, t) <- nested s
      if temp = [] then .ok (.incomplete t)
      else
        .ok (.condition { t with state := .start }
          (re ++ utf8 "(?:" ++ temp ++ utf8 ")+"))
  | .alt =>
      if b = ','.toUInt8 then
        .ok (.condition (s.advance 1) (re ++ utf8 "|"))
      else if b = ']'.toUInt8 then
        .ok (.condition { s.advance 1 with state := .start } (re ++ utf8 ")"))
      else do
        let (temp, t) <- nested s
        if temp = [] then .ok (.incomplete t)
        else .ok (.condition { t with state := .alt } (re ++ temp))
  | .ctl => .error (.fault .assertNotReached)
  | .anyQ => .error (.fault .assertNotReached)

/-- The previous character was a caret. -/
def resolveCaret (s : Scanner S) : Scanner S :=
  if s.state = .ctl then
    { s with state := .start, pattern := controlHead s.pattern }
  else s

/-- One pass of the loop in `teco_pattern2regexp()`. -/
def pass (nested : Scanner S -> Except Failure (Bytes × Scanner S))
    (s : Scanner S) (re : Bytes) : Except Failure (Pass S) := do
  let (cls, s) <- classAt regexEscapeString qregMachine codepage false
    (resolveCaret s)
  if cls ≠ [] then appendClass re (utf8 "[") cls s
  else
    match s.pattern with
    | [] => .ok (.endOfPattern s re)
    | b :: _ =>
        passState regexEscapeString qregMachine codepage nested b s re

/-- Behind the loop: an open alternative is completed. -/
def complete (s : Scanner S) (re : Bytes) :
    Except Failure (Bytes × Scanner S) :=
  let re := if s.state = .alt then re ++ utf8 ")" else re
  if 0 ∈ re then .error (.fault .assertion) else .ok (re, s)

/-- The loop of `teco_pattern2regexp()`. -/
def pattern2RegexpFrom :
    Nat -> Bool -> Scanner S -> Bytes -> Except Failure (Bytes × Scanner S)
  | 0, _, _, _ => .error (.fault .outOfFuel)
  | fuel + 1, singleExpr, s, re => do
      let nested (s : Scanner S) : Except Failure (Bytes × Scanner S) :=
        pattern2RegexpFrom fuel true { s with state := .start } []
      match <- pass regexEscapeString qregMachine codepage nested s re with
      | .incomplete s => .ok ([], s)
      | .endOfPattern s re => complete s re
      | .condition s re =>
          if singleExpr ∧ s.state = .start then complete s re
          else pattern2RegexpFrom fuel singleExpr s re

/-- `teco_pattern2regexp()` on a whole pattern.  Every second pass of the loop
takes a byte. -/
def pattern2Regexp (pattern : Bytes) : Except Failure Bytes :=
  (pattern2RegexpFrom regexEscapeString qregMachine codepage
    (2 * pattern.length + 2) false
    { state := .start
      passed := []
      pattern := pattern
      machine := qregMachine.reset } []).map Prod.fst

end Translation

end Pattern
end SciTECO
