import Mathlib.Data.Nat.Digits.Lemmas
import SciTECO.Editing.Search
import SciTECO.Expressions.Arithmetic
import SciTECO.Expressions.UnaryMinus
import SciTECO.Parser.StringBuilding

/-!
# Numbers in the text

The command `\` writes its argument into the document.  Without an argument it
reads the number at the dot.  Negative numbers are written digit by digit as
remainders with their signs cut off, and read as a number without a sign that
is negated.
-/

namespace SciTECO
namespace Editing

open Undoable
open SciTECO.Parser (formatDigits formatNumber)

/-- `TECO_EXPRESSIONS_FORMAT_LEN`. -/
def formatLen : Nat := 1 + 64 + 1

/-!
## The command
-/

/-- The value of a digit in the radix.  The end of the document reads as 0, and
the bytes from 0x80 on are negative. -/
def digitOf (radix : TecoInt) (chr : UInt8) : Option TecoInt :=
  let c := asciiToUpper chr.toNat
  if '0'.toNat ≤ c ∧ (c : Int) ≤ '0'.toNat + min radix.toInt 10 - 1 then
    some (BitVec.ofNat 64 (c - '0'.toNat))
  else if 'A'.toNat ≤ c ∧
      (c : Int) ≤ 'A'.toNat + min (radix - 10).toInt 26 - 1 then
    some (10 + BitVec.ofNat 64 (c - 'A'.toNat))
  else
    none

/-- The loop over the digits, with what is left of the text. -/
def readDigits (radix : TecoInt) : TecoInt -> Bytes -> TecoInt × Bytes
  | v, [] => (v, [])
  | v, chr :: rest =>
      match digitOf radix chr with
      | some digit => readDigits radix (v * radix + digit) rest
      | none => (v, chr :: rest)

/-- The number at the dot and the position behind it. -/
def readNumber (radix : TecoInt) (d : Document) : TecoInt × Nat :=
  let text := d.text.drop d.dot
  let found :=
    if text.head? = some '-'.toUInt8 then
      let found := readDigits radix 0 text.tail
      (-1 * found.1, found.2)
    else
      let found := readDigits radix 0 text
      (1 * found.1, found.2)
  (found.1, d.text.length - found.2.length)

/-- The text is added as an action of its own, and is the range of the last
command. -/
def insertNumber (sci : Scintilla) (str : Bytes) (s : Editor) : Editor :=
  let start := sci.bytes2glyphs s.document s.document.dot
  let t := { s.push (.ranges s.ranges) with
    ranges := [(start, start + str.length)] }
  (t.undoAction (Editor.ssm (Document.addText str))).undoSsm .undo

/-- `teco_state_start_backslash()`. -/
def startBackslash (sci : Scintilla) (radix : TecoInt) (ed : Editor) :
    Exec Expressions Editor := do
  Expressions.eval false
  let s <- get
  if 0 < s.args then
    let number <- Expressions.popNum 0
    match formatNumber number radix with
    | .ok str => pure (insertNumber sci str ed)
    | .error err => fault err
  else
    Expressions.pushInt (readNumber radix ed.document).1
    pure ed

/-!
## The digits that are written
-/

/-- The byte of a digit. -/
def digitByte (k : Nat) : UInt8 :=
  UInt8.ofNat (if k < 10 then '0'.toNat + k else 'A'.toNat + (k - 10))

/-- The digits of a natural number, the last one first.  There is at least
one. -/
def magnitudeDigits (radix n : Nat) : List Nat :=
  if n = 0 then [0] else Nat.digits radix n

theorem magnitudeDigits_small {radix n : Nat} (h : n < radix) :
    magnitudeDigits radix n = [n] := by
  unfold magnitudeDigits
  split
  · next hzero => rw [hzero]
  · next hne => exact Nat.digits_of_lt radix n hne h

theorem magnitudeDigits_step {radix n : Nat} (hradix : 1 < radix)
    (h : n / radix ≠ 0) :
    magnitudeDigits radix n =
      n % radix :: magnitudeDigits radix (n / radix) := by
  have hne : n ≠ 0 := by
    intro hzero
    rw [hzero, Nat.zero_div] at h
    exact h rfl
  unfold magnitudeDigits
  rw [if_neg hne, if_neg h, Nat.digits_def' hradix (Nat.pos_of_ne_zero hne)]

theorem magnitudeDigits_lt {radix n : Nat} (hradix : 1 < radix) :
    forall k, k ∈ magnitudeDigits radix n -> k < radix := by
  intro k hk
  unfold magnitudeDigits at hk
  split at hk
  · rw [List.mem_singleton.mp hk]
    exact Nat.lt_trans Nat.zero_lt_one hradix
  · exact Nat.digits_lt_base hradix hk

theorem magnitudeDigits_value (radix n : Nat) :
    Nat.ofDigits radix (magnitudeDigits radix n) = n := by
  unfold magnitudeDigits
  split
  · next hzero => rw [hzero, Nat.ofDigits_singleton]
  · exact Nat.ofDigits_digits radix n

theorem magnitudeDigits_length {radix n k : Nat} (hradix : 1 < radix)
    (hk : k ≠ 0) (h : n < radix ^ k) :
    (magnitudeDigits radix n).length ≤ k := by
  unfold magnitudeDigits
  split
  · exact Nat.pos_of_ne_zero hk
  · exact (Nat.digits_length_le_iff hradix n).mpr h

theorem magnitudeDigits_ne (radix n : Nat) : magnitudeDigits radix n ≠ [] := by
  unfold magnitudeDigits
  split
  · exact List.cons_ne_nil 0 []
  · next hne => exact Nat.digits_ne_nil_iff_ne_zero.mpr hne

theorem formatDigits_step {radix : Int} (h : 2 ≤ radix) (h' : radix ≤ 36)
    (fuel : Nat) (v : Int) :
    formatDigits radix (fuel + 1) v =
      digitByte (v.natAbs % radix.natAbs) ::
        (if v.tdiv radix = 0 then []
          else formatDigits radix fuel (v.tdiv radix)) := by
  have hbytes : (List.range 36).all (fun k =>
      (if '9'.toUInt8 < UInt8.ofNat (k + '0'.toNat) ∧
          UInt8.ofNat (k + '0'.toNat) < 0x80 then
        UInt8.ofNat (k + '0'.toNat) + 7
      else UInt8.ofNat (k + '0'.toNat)) = digitByte k) = true := by
    decide
  have hlt : v.natAbs % radix.natAbs < 36 := by
    have hmod := Nat.mod_lt v.natAbs (show 0 < radix.natAbs by omega)
    omega
  have hbyte := of_decide_eq_true
    (List.all_eq_true.mp hbytes _ (List.mem_range.mpr hlt))
  rw [<- hbyte, <- Int.natAbs_tmod]
  rfl

theorem formatDigits_eq {radix : Int} (h : 2 ≤ radix) (h' : radix ≤ 36)
    (fuel : Nat) :
    forall v : Int, v.natAbs < radix.natAbs ^ (fuel + 1) ->
      formatDigits radix (fuel + 1) v =
        (magnitudeDigits radix.natAbs v.natAbs).map digitByte := by
  have hone : 1 < radix.natAbs := by omega
  induction fuel with
  | zero =>
      intro v hv
      rw [Nat.zero_add, Nat.pow_one] at hv
      have hzero : v.tdiv radix = 0 := by
        rw [<- Int.natAbs_eq_zero, Int.natAbs_tdiv]
        exact Nat.div_eq_of_lt hv
      rw [formatDigits_step h h', hzero, if_pos rfl, magnitudeDigits_small hv,
        Nat.mod_eq_of_lt hv]
      rfl
  | succ fuel ih =>
      intro v hv
      have hdiv : (v.tdiv radix).natAbs = v.natAbs / radix.natAbs :=
        Int.natAbs_tdiv v radix
      rw [formatDigits_step h h']
      by_cases hzero : v.tdiv radix = 0
      · have hlt : v.natAbs < radix.natAbs := by
          rw [<- Int.natAbs_eq_zero, hdiv] at hzero
          rcases Nat.div_eq_zero_iff.mp hzero with hradix | hlt
          · omega
          · exact hlt
        rw [hzero, if_pos rfl, magnitudeDigits_small hlt, Nat.mod_eq_of_lt hlt]
        rfl
      · have hne : v.natAbs / radix.natAbs ≠ 0 := by
          rw [<- hdiv]
          exact Int.natAbs_ne_zero.mpr hzero
        have hrest : (v.tdiv radix).natAbs < radix.natAbs ^ (fuel + 1) := by
          rw [hdiv]
          apply Nat.div_lt_of_lt_mul
          rw [<- Nat.pow_succ']
          exact hv
        rw [if_neg hzero, ih _ hrest, magnitudeDigits_step hone hne, hdiv]
        rfl

/-!
## Reading the digits back
-/

theorem asciiToUpper_of_lt {n : Nat} (h : n < 97) : asciiToUpper n = n := by
  unfold asciiToUpper
  exact if_neg (fun hlower => absurd hlower.1 (Nat.not_le.mpr h))

theorem digitOf_digitByte {radix : TecoInt} (h : radix.toInt ≤ 36) {k : Nat}
    (hk : (k : Int) < radix.toInt) :
    digitOf radix (digitByte k) = some (BitVec.ofNat 64 k) := by
  by_cases hten : k < 10
  · have hbyte : (digitByte k).toNat = 48 + k := by
      unfold digitByte
      rw [if_pos hten]
      exact UInt8.toNat_ofNat_of_lt' (show 48 + k < 256 by omega)
    have hdigit : 48 ≤ 48 + k ∧
        ((48 + k : Nat) : Int) ≤ 48 + min radix.toInt 10 - 1 := by
      omega
    unfold digitOf
    rw [hbyte, asciiToUpper_of_lt (by omega)]
    have hvalue : 48 + k - 48 = k := Nat.add_sub_cancel_left 48 k
    exact (if_pos hdigit).trans
      (congrArg (fun n => some (BitVec.ofNat 64 n)) hvalue)
  · have hbyte : (digitByte k).toNat = 55 + k := by
      unfold digitByte
      rw [if_neg hten]
      have hsum : 'A'.toNat + (k - 10) = 55 + k :=
        show 65 + (k - 10) = 55 + k by omega
      rw [hsum]
      exact UInt8.toNat_ofNat_of_lt' (show 55 + k < 256 by omega)
    have hradix : (radix - 10).toInt = radix.toInt - 10 := by
      rw [BitVec.toInt_sub, show (10 : TecoInt).toInt = 10 by decide]
      exact Int.bmod_eq_of_le (by omega) (by omega)
    have hno : ¬ (48 ≤ 55 + k ∧
        ((55 + k : Nat) : Int) ≤ 48 + min radix.toInt 10 - 1) := by
      omega
    have hletter : 65 ≤ 55 + k ∧
        ((55 + k : Nat) : Int) ≤ 65 + min (radix - 10).toInt 26 - 1 := by
      omega
    have hvalue : (10 : TecoInt) + BitVec.ofNat 64 (55 + k - 65) =
        BitVec.ofNat 64 k := by
      rw [show (10 : TecoInt) = BitVec.ofNat 64 10 by rfl, <- BitVec.ofNat_add]
      exact congrArg (BitVec.ofNat 64) (by omega)
    unfold digitOf
    rw [hbyte, asciiToUpper_of_lt (by omega)]
    exact (if_neg hno).trans ((if_pos hletter).trans (congrArg some hvalue))

/-- The loop stops in front of what is no digit. -/
theorem readDigits_stop {radix : TecoInt} {rest : Bytes} (v : TecoInt)
    (h : forall chr, rest.head? = some chr -> digitOf radix chr = none) :
    readDigits radix v rest = (v, rest) := by
  cases rest with
  | nil => rfl
  | cons chr rest =>
      unfold readDigits
      rw [h chr rfl]

theorem readDigits_bytes {radix : TecoInt} (h : radix.toInt ≤ 36)
    {rest : Bytes}
    (hrest : forall chr, rest.head? = some chr -> digitOf radix chr = none)
    (digits : List Nat) (hdigits : forall k, k ∈ digits ->
      (k : Int) < radix.toInt) :
    forall v : TecoInt,
      readDigits radix v (digits.map digitByte ++ rest) =
        (digits.foldl (fun v k => v * radix + BitVec.ofNat 64 k) v, rest) := by
  induction digits with
  | nil => exact fun v => readDigits_stop v hrest
  | cons k digits ih =>
      intro v
      have hk := digitOf_digitByte h (hdigits k List.mem_cons_self)
      change readDigits radix v
        (digitByte k :: (digits.map digitByte ++ rest)) = _
      unfold readDigits
      rw [hk]
      exact ih (fun j hj => hdigits j (List.mem_cons_of_mem k hj)) _

/-- The digits are read as the number they are written for. -/
theorem readDigits_magnitude {radix : TecoInt} (h : 2 ≤ radix.toInt)
    (h' : radix.toInt ≤ 36) {rest : Bytes}
    (hrest : forall chr, rest.head? = some chr -> digitOf radix chr = none)
    (n : Nat) :
    readDigits radix 0
        (((magnitudeDigits radix.toInt.natAbs n).map digitByte).reverse ++
          rest) =
      (BitVec.ofNat 64 n, rest) := by
  have hone : 1 < radix.toInt.natAbs := by omega
  have hradix : radix = BitVec.ofNat 64 radix.toInt.natAbs := by
    rw [<- BitVec.ofInt_natCast, Int.natAbs_of_nonneg (by omega),
      BitVec.ofInt_toInt]
  have hfold (digits : List Nat) :
      digits.foldr (fun k v => v * radix + BitVec.ofNat 64 k) 0 =
        BitVec.ofNat 64 (Nat.ofDigits radix.toInt.natAbs digits) := by
    induction digits with
    | nil => rfl
    | cons k digits ih =>
        rw [List.foldr_cons, ih, Nat.ofDigits_cons, BitVec.ofNat_add,
          BitVec.ofNat_mul, <- hradix, BitVec.mul_comm, BitVec.add_comm]
  rw [<- List.map_reverse, readDigits_bytes h' hrest, List.foldl_reverse,
    hfold, magnitudeDigits_value]
  intro k hk
  have hlt := magnitudeDigits_lt hone k (List.mem_reverse.mp hk)
  omega

/-!
## The round trip
-/

theorem magnitude_lt (number : TecoInt) : number.toInt.natAbs < 2 ^ 64 := by
  have hlow := BitVec.le_toInt number
  have hhigh := @BitVec.toInt_lt 64 number
  omega

/-- What is written for a number. -/
theorem formatNumber_eq {number radix : TecoInt} (h : 2 ≤ radix.toInt)
    (h' : radix.toInt ≤ 36) :
    formatNumber number radix = .ok
      ((if number.slt 0 then ['-'.toUInt8] else []) ++
        ((magnitudeDigits radix.toInt.natAbs number.toInt.natAbs).map
          digitByte).reverse) := by
  have hne : radix ≠ 0 := by
    intro hzero
    rw [hzero] at h
    exact absurd h (by decide)
  have hfuel : number.toInt.natAbs < radix.toInt.natAbs ^ (65 + 1) := by
    calc number.toInt.natAbs < 2 ^ 64 := magnitude_lt number
      _ ≤ 2 ^ (65 + 1) := by norm_num
      _ ≤ radix.toInt.natAbs ^ (65 + 1) := Nat.pow_le_pow_left (by omega) _
  unfold formatNumber
  rw [if_neg hne, formatDigits_eq h h' 65 number.toInt hfuel]

/-- The digits are bytes from 0 to Z. -/
theorem digitByte_range {k : Nat} (hk : k < 36) :
    digitByte k ≠ 0 ∧ digitByte k ≠ '-'.toUInt8 := by
  have hbytes : (List.range 36).all (fun k =>
      digitByte k ≠ 0 ∧ digitByte k ≠ '-'.toUInt8) = true := by
    decide
  exact of_decide_eq_true
    (List.all_eq_true.mp hbytes k (List.mem_range.mpr hk))

/-- The sign is read as a factor. -/
theorem readNumber_format {number radix : TecoInt} (h : 2 ≤ radix.toInt)
    (h' : radix.toInt ≤ 36) {str rest : Bytes}
    (hstr : formatNumber number radix = .ok str) {d : Document}
    (htext : d.text.drop d.dot = str ++ rest)
    (hrest : forall chr, rest.head? = some chr -> digitOf radix chr = none) :
    readNumber radix d = (number, d.dot + str.length) := by
  have hread := readDigits_magnitude h h' hrest number.toInt.natAbs
  have hlength : d.text.length - rest.length = d.dot + str.length := by
    have hdrop := congrArg List.length htext
    rw [List.length_drop, List.length_append] at hdrop
    have hdot := d.dot_le
    omega
  rw [formatNumber_eq h h'] at hstr
  have heq := Except.ok.inj hstr
  generalize hdigits : ((magnitudeDigits radix.toInt.natAbs
    number.toInt.natAbs).map digitByte).reverse = digits at hread heq
  unfold readNumber
  rw [htext]
  cases hsign : number.slt 0 with
  | true =>
      have hneg := slt_zero_iff.mp hsign
      rw [hsign, if_pos rfl] at heq
      have hnumber : -1 * BitVec.ofNat 64 number.toInt.natAbs = number := by
        rw [show (-1 : TecoInt) = BitVec.ofInt 64 (-1) by decide,
          <- BitVec.ofInt_natCast, <- BitVec.ofInt_mul]
        have habs : -1 * (number.toInt.natAbs : Int) = number.toInt := by
          omega
        rw [habs, BitVec.ofInt_toInt]
      have hhead : (str ++ rest).head? = some '-'.toUInt8 := by
        rw [<- heq]
        rfl
      have htail : (str ++ rest).tail = digits ++ rest := by
        rw [<- heq]
        rfl
      dsimp only
      rw [if_pos hhead, htail, hread, hnumber, hlength]
  | false =>
      have hnonneg : ¬ number.toInt < 0 := by
        intro hneg
        rw [slt_zero_iff.mpr hneg] at hsign
        cases hsign
      rw [hsign, if_neg (by decide), List.nil_append] at heq
      have hnumber : 1 * BitVec.ofNat 64 number.toInt.natAbs = number := by
        have habs : (number.toInt.natAbs : Int) = number.toInt := by omega
        rw [one_mul, <- BitVec.ofInt_natCast, habs, BitVec.ofInt_toInt]
      have hhead : (str ++ rest).head? ≠ some '-'.toUInt8 := by
        rw [<- heq]
        cases hcases : digits with
        | nil =>
            rw [hcases, List.reverse_eq_nil_iff, List.map_eq_nil_iff] at hdigits
            exact absurd hdigits (magnitudeDigits_ne _ _)
        | cons b bs =>
            have hmem : b ∈ digits := by
              rw [hcases]
              exact List.mem_cons_self
            rw [<- hdigits] at hmem
            rcases List.mem_map.mp (List.mem_reverse.mp hmem) with ⟨k, hk, hkb⟩
            have hlt := magnitudeDigits_lt (by omega) k hk
            intro hminus
            rw [List.cons_append, List.head?_cons, <- hkb] at hminus
            exact (digitByte_range (by omega)).2 (Option.some.inj hminus)
      dsimp only
      rw [if_neg hhead, <- heq, hread, hnumber, heq, hlength]

theorem formatNumber_fits {number radix : TecoInt} (h : 2 ≤ radix.toInt)
    (h' : radix.toInt ≤ 36) {str : Bytes}
    (hstr : formatNumber number radix = .ok str) :
    0 ∉ str ∧ str.length + 1 ≤ formatLen := by
  have hone : 1 < radix.toInt.natAbs := by omega
  rw [formatNumber_eq h h'] at hstr
  have heq := Except.ok.inj hstr
  constructor
  · intro hmem
    rw [<- heq, List.mem_append, List.mem_reverse] at hmem
    rcases hmem with hsign | hdigit
    · split at hsign
      · exact absurd (List.mem_singleton.mp hsign) (by decide)
      · exact absurd hsign List.not_mem_nil
    · rcases List.mem_map.mp hdigit with ⟨k, hk, hzero⟩
      have hlt := magnitudeDigits_lt hone k hk
      exact (digitByte_range (by omega)).1 hzero
  · have hbound : number.toInt.natAbs < radix.toInt.natAbs ^ 64 := by
      calc number.toInt.natAbs < 2 ^ 64 := magnitude_lt number
        _ ≤ radix.toInt.natAbs ^ 64 := Nat.pow_le_pow_left (by omega) _
    have hlength := magnitudeDigits_length hone (by decide) hbound
    have hsign : (if number.slt 0 then ['-'.toUInt8] else []).length ≤ 1 := by
      split
      · exact Nat.le_refl 1
      · exact Nat.zero_le 1
    rw [<- heq, List.length_append, List.length_reverse, List.length_map]
    unfold formatLen
    omega

/-- A number that has been formatted is read back.  The digits and the zero
behind them fit into the buffer. -/
theorem startBackslash_formatNumber (number : TecoInt) {radix : TecoInt}
    (h : 2 ≤ radix.toInt) (h' : radix.toInt ≤ 36) :
    exists str, formatNumber number radix = .ok str ∧
      0 ∉ str ∧ str.length + 1 ≤ formatLen ∧
      forall (sci : Scintilla) (ed : Editor) (rest : Bytes)
        (s t : Expressions),
        ed.document.text.drop ed.document.dot = str ++ rest ->
        (forall chr, rest.head? = some chr -> digitOf radix chr = none) ->
        result (Expressions.eval false) s = .ok ((), t) -> t.args = 0 ->
        (readNumber radix ed.document).2 =
            ed.document.dot + str.length ∧
          result (startBackslash sci radix ed) s =
            .ok (ed, t.pushed number) := by
  have hstr := @formatNumber_eq number radix h h'
  refine ⟨_, hstr, (formatNumber_fits h h' hstr).1,
    (formatNumber_fits h h' hstr).2, ?_⟩
  intro sci ed rest s t htext hrest heval hargs
  have hread := readNumber_format h h' hstr htext hrest
  constructor
  · rw [hread]
  · unfold startBackslash
    rw [result_bind_of_ok heval, result_bind_of_ok (result_get t), hargs,
      if_neg (Nat.lt_irrefl 0), hread,
      result_bind_of_ok (Expressions.result_pushInt number t)]
    rfl

/-- A list of two hexadecimal numbers. -/
def hexadecimals : Editor :=
  { middleOfText with
    documents := fun _ => Document.create (utf8 "-FF,7") false }

theorem startBackslash_formatNumber_hexadecimals :
    result (startBackslash singleLine 16 hexadecimals) Expressions.initial =
      .ok (hexadecimals, Expressions.initial.pushed (-255)) := by
  rcases @startBackslash_formatNumber (-255) 16 (by decide) (by decide) with
    ⟨str, hstr, _, _, hread⟩
  have heq : Except.ok (utf8 "-FF") = Except.ok str :=
    (show formatNumber (-255) 16 = .ok (utf8 "-FF") by decide).symm.trans hstr
  have hrest : forall chr, (utf8 ",7").head? = some chr ->
      digitOf 16 chr = none := by
    intro chr hchr
    rw [<- Option.some.inj hchr]
    decide
  refine (hread singleLine hexadecimals (utf8 ",7") Expressions.initial
    Expressions.initial ?_ hrest rfl rfl).2
  rw [<- Except.ok.inj heq]
  rfl

end Editing
end SciTECO
