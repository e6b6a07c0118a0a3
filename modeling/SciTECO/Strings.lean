import SciTECO.Error

/-!
# Characters and strings

Source code is UTF-8.  The parser reads it character by character, while
strings and positions are in bytes.
-/

namespace SciTECO

/-- `teco_string_t`. -/
abbrev Bytes : Type := List UInt8

/-- `gunichar`. -/
abbrev Gunichar : Type := Nat

/-- The character of an ASCII code, by which characters are compared. -/
def ascii (chr : Gunichar) : Option Char :=
  if chr < 0x80 then some (Char.ofNat chr) else none

/-- `TECO_IS_CTL()`. -/
def isCtl (chr : Gunichar) : Bool := chr < 0x20

/-- `TECO_CTL_ECHO()`. -/
def ctlEcho (chr : Gunichar) : Gunichar := chr ||| 0x40

/-- `TECO_CTL_KEY()`. -/
def ctlKey (chr : Gunichar) : Gunichar := chr - (chr &&& 0x40)

/-- `teco_ascii_toupper()`. -/
def asciiToUpper (chr : Gunichar) : Gunichar :=
  if 'a'.toNat <= chr ∧ chr <= 'z'.toNat then chr - 0x20 else chr

/-- `g_ascii_tolower()`. -/
def asciiToLower (chr : Gunichar) : Gunichar :=
  if 'A'.toNat <= chr ∧ chr <= 'Z'.toNat then chr + 0x20 else chr

theorem ascii_eq {chr : Gunichar} {c : Char} (h : ascii chr = some c) :
    chr = c.toNat := by
  unfold ascii at h
  split at h
  case isTrue hlt =>
      have hc : Char.ofNat chr = c := Option.some.inj h
      rw [<- hc]
      have hlt' : chr < 128 := hlt
      have hvalid : chr.isValidChar := Or.inl (Nat.lt_trans hlt' (by decide))
      unfold Char.ofNat
      rw [dif_pos hvalid]
      rfl
  case isFalse =>
      exact absurd h (by simp)

theorem asciiToUpper_semicolon {chr : Gunichar}
    (h : asciiToUpper chr = ';'.toNat) : chr = ';'.toNat := by
  unfold asciiToUpper at h
  split at h
  case isTrue hlower =>
      have hapart : forall n : Nat, 97 <= n -> n - 32 ≠ 59 := by
        intro n
        omega
      exact absurd h (hapart chr hlower.1)
  case isFalse => exact h

/-- `teco_is_noop()`. -/
def isNoop (chr : Gunichar) : Bool :=
  chr == ' '.toNat || chr == 0x0C || chr == '\r'.toNat ||
    chr == '\n'.toNat || chr == 0x0B

/-!
## UTF-8
-/

/-- The leading byte and the continuation bytes for `count` groups of 6 bits. -/
def utf8Tail (chr : Gunichar) : Nat -> Bytes
  | 0 => []
  | count + 1 =>
      UInt8.ofNat (0x80 ||| ((chr >>> (6 * count)) &&& 0x3F)) ::
        utf8Tail chr count

/-- `g_unichar_to_utf8()`, which also has forms for invalid code points. -/
def unicharToUtf8 (chr : Gunichar) : Bytes :=
  let encode (lead count : Nat) : Bytes :=
    UInt8.ofNat (lead ||| (chr >>> (6 * count))) :: utf8Tail chr count
  if chr < 0x80 then [UInt8.ofNat chr]
  else if chr < 0x800 then encode 0xC0 1
  else if chr < 0x10000 then encode 0xE0 2
  else if chr < 0x200000 then encode 0xF0 3
  else if chr < 0x4000000 then encode 0xF8 4
  else encode 0xFC 5

theorem unicharToUtf8_ne_nil (chr : Gunichar) : unicharToUtf8 chr ≠ [] := by
  unfold unicharToUtf8
  simp only
  split <;> first | exact List.cons_ne_nil _ _ | skip
  split <;> first | exact List.cons_ne_nil _ _ | skip
  split <;> first | exact List.cons_ne_nil _ _ | skip
  split <;> first | exact List.cons_ne_nil _ _ | skip
  split <;> exact List.cons_ne_nil _ _

/-- The length of a sequence by its first byte.  A byte that starts no sequence
is skipped on its own. -/
def utf8Skip (lead : UInt8) : Nat :=
  if lead < 0xC0 then 1
  else if lead < 0xE0 then 2
  else if lead < 0xF0 then 3
  else if lead < 0xF8 then 4
  else if lead < 0xFC then 5
  else if lead < 0xFE then 6
  else 1

/-- Collect continuation bytes.  The result of an invalid sequence is
`(gunichar)-1`. -/
def utf8Continue : Nat -> Gunichar -> Bytes -> Gunichar
  | 0, chr, _ => chr
  | _ + 1, _, [] => 0xFFFFFFFF
  | count + 1, chr, b :: rest =>
      if b &&& 0xC0 = 0x80 then
        utf8Continue count ((chr <<< 6) ||| (b &&& 0x3F).toNat) rest
      else
        0xFFFFFFFF

/-- `g_utf8_get_char()` on the rest of a string. -/
def utf8GetChar : Bytes -> Gunichar
  | [] => 0
  | b :: rest =>
      if b < 0x80 then b.toNat
      else if b < 0xC0 then 0xFFFFFFFF
      else if b < 0xE0 then utf8Continue 1 (b &&& 0x1F).toNat rest
      else if b < 0xF0 then utf8Continue 2 (b &&& 0x0F).toNat rest
      else if b < 0xF8 then utf8Continue 3 (b &&& 0x07).toNat rest
      else if b < 0xFC then utf8Continue 4 (b &&& 0x03).toNat rest
      else if b < 0xFE then utf8Continue 5 (b &&& 0x01).toNat rest
      else 0xFFFFFFFF

/-- `g_unichar_validate()`. -/
def unicharValidate (chr : Gunichar) : Bool :=
  chr < 0xD800 || (0xDFFF < chr && chr < 0x110000)

/-- `teco_string_validate_utf8()`, where the fuel is the length: every character
is valid and has its shortest form. -/
def validateUtf8 : Nat -> Bytes -> Bool
  | _, [] => true
  | 0, _ => false
  | fuel + 1, b :: rest =>
      let chr := utf8GetChar (b :: rest)
      unicharValidate chr && (unicharToUtf8 chr).isPrefixOf (b :: rest) &&
        validateUtf8 fuel ((b :: rest).drop (utf8Skip b))

/-- The bytes of a text. -/
def utf8 (text : String) : Bytes :=
  text.toList.flatMap (fun c => unicharToUtf8 c.toNat)

/-- `teco_string_echo()`. -/
def stringEcho (str : Bytes) : Bytes :=
  str.flatMap (fun b =>
    if isCtl b.toNat then ['^'.toUInt8, UInt8.ofNat (ctlEcho b.toNat)]
    else [b])

/-- A string as it is printed into an error message. -/
def printable (str : Bytes) : String :=
  String.ofList ((stringEcho str).map (fun b => Char.ofNat b.toNat))

/-!
## Errors about characters
-/

/-- `%04X`. -/
def formatHex (n : Nat) : String :=
  let digits := (Nat.toDigits 16 n).map Char.toUpper
  String.ofList (List.replicate (4 - digits.length) '0' ++ digits)

/-- `teco_error_syntax_set()`. -/
def TecoError.syntaxError (chr : Gunichar) : TecoError :=
  { code := ErrorCode.syntaxError
    message := "Syntax error \"" ++ printable (unicharToUtf8 chr) ++
      "\" (U+" ++ formatHex chr ++ ")" }

/-- `teco_error_modifier_set()`. -/
def TecoError.modifier (chr : Gunichar) : TecoError :=
  { code := ErrorCode.modifier
    message := "Unexpected modifier on <" ++
      String.ofList [Char.ofNat (chr % 256)] ++ ">" }

/-- `teco_error_argexpected_set()`. -/
def TecoError.argExpected (cmd : String) : TecoError :=
  { code := ErrorCode.argExpected
    message := "Argument expected for <" ++ cmd ++ ">" }

/-- `teco_error_label_set()`. -/
def TecoError.label (name : Bytes) : TecoError :=
  { code := ErrorCode.label
    message := "Label \"" ++ printable name ++ "\" not found" }

end SciTECO
