import SciTECO.Characters
import SciTECO.Editing.Layout

/-!
# Characters of registers

`Q` with an argument returns a character of a register's string.  The string of
a plain register is a document.  External registers have a C string that GLib
decodes.
-/

namespace SciTECO
namespace QReg

open SciTECO.Editing (Document Layout Scintilla)

/-!
## Decoding
-/

/-- The bits of the first byte of a sequence, the number of bytes behind it
and the least code with that length. -/
def utf8Lead (b : UInt8) : Option (Nat × Nat × Nat) :=
  if b < 0xC0 then none
  else if b < 0xE0 then some (1, (b &&& 0x1F).toNat, 0x80)
  else if b < 0xF0 then some (2, (b &&& 0x0F).toNat, 0x800)
  else if b < 0xF8 then some (3, (b &&& 0x07).toNat, 0x10000)
  else if b < 0xFC then some (4, (b &&& 0x03).toNat, 0x200000)
  else if b < 0xFE then some (5, (b &&& 0x01).toNat, 0x4000000)
  else none

/-- The code of a complete sequence. -/
def validatedCode (least wc : Nat) : Int :=
  if wc < least then -1 else if unicharValidate wc then wc else -1

/-- Collect the bytes of a sequence.  A string ends with a zero, where the
sequence is incomplete. -/
def validatedTail (least : Nat) : Nat -> Nat -> Bytes -> Int
  | 0, wc, _ => validatedCode least wc
  | n + 1, wc, rest =>
      let ch := rest.headD 0
      if ch &&& 0xC0 = 0x80 then
        validatedTail least n ((wc <<< 6) ||| (ch &&& 0x3F).toNat) rest.tail
      else if ch ≠ 0 then -1
      else -2

/-- `g_utf8_get_char_validated()` without a length. -/
def utf8GetCharValidated (p : Bytes) : Int :=
  let b := p.headD 0
  if b < 0x80 then b.toNat
  else
    match utf8Lead b with
    | some (n, wc, least) => validatedTail least n wc p.tail
    | none => -1

/-- `g_utf8_strlen()` with the length of the string.  It stops at a zero, and
does not count the last character unless it is complete. -/
def strlenFrom : Nat -> Bytes -> Nat
  | _, [] => 0
  | 0, _ => 0
  | fuel + 1, b :: rest =>
      if b = 0 then 0
      else if utf8Skip b ≤ (b :: rest).length then
        strlenFrom fuel ((b :: rest).drop (utf8Skip b)) + 1
      else 0

def utf8Strlen (str : Bytes) : Nat := strlenFrom str.length str

/-- `g_utf8_offset_to_pointer()`. -/
def utf8OffsetToPointer : Nat -> Bytes -> Bytes
  | 0, p => p
  | offset + 1, p => utf8OffsetToPointer offset (p.drop (utf8Skip (p.headD 0)))

/-- `teco_qreg_external_get_character()`. -/
def externalGetCharacter (str : Bytes) (position : TecoInt) : Int :=
  if position.toInt < 0 ∨ (utf8Strlen str : Int) ≤ position.toInt then -1
  else
    let p := utf8OffsetToPointer position.toInt.toNat str
    if p.headD 0 ≠ 0 then utf8GetCharValidated p else 0

/-- `teco_view_get_character()`.  The buffer has four bytes and a zero. -/
def viewGetCharacter (d : Document) (pos len : Nat) : Int :=
  if ¬ d.characterIndex then (d.text.getD pos 0).toNat
  else
    let buf := (d.text.drop pos).take (min len (pos + 4) - pos)
    if buf.headD 0 = 0 then 0
    else
      let rc := utf8GetCharValidated buf
      -- the values for errors are preserved
      if rc < 0 then rc - 1 else rc

/-- `teco_qreg_plain_get_character()`. -/
def plainGetCharacter (sci : Scintilla) (d : Document) (position : TecoInt) :
    Int :=
  let len := d.text.length
  let off := sci.glyphs2bytes d position
  if 0 ≤ off ∧ off ≠ len then viewGetCharacter d off.toNat len else -1

/-!
## Sequences
-/

/-- A valid sequence in its shortest form. -/
def IsSequence (chr : Bytes) : Prop :=
  exists x, unicharValidate x = true ∧ chr = unicharToUtf8 x

def Continuation (b : UInt8) : Prop := b &&& 0xC0 = 0x80

theorem utf8Skip_lead {b : UInt8} {n wc least : Nat}
    (h : utf8Lead b = some (n, wc, least)) : utf8Skip b = n + 1 ∧ 0 < n := by
  unfold utf8Lead at h
  unfold utf8Skip
  split at h
  · cases h
  next hC0 =>
  rw [if_neg hC0]
  split at h
  · next hE0 =>
      cases h
      exact ⟨if_pos hE0, by decide⟩
  next hE0 =>
  rw [if_neg hE0]
  split at h
  · next hF0 =>
      cases h
      exact ⟨if_pos hF0, by decide⟩
  next hF0 =>
  rw [if_neg hF0]
  split at h
  · next hF8 =>
      cases h
      exact ⟨if_pos hF8, by decide⟩
  next hF8 =>
  rw [if_neg hF8]
  split at h
  · next hFC =>
      cases h
      exact ⟨if_pos hFC, by decide⟩
  next hFC =>
  rw [if_neg hFC]
  split at h
  · next hFE =>
      cases h
      exact ⟨if_pos hFE, by decide⟩
  · cases h

theorem continuation_high {b : UInt8} (h : Continuation b) :
    ¬ b < 0x80 ∧ utf8Lead b = none ∧ b ≠ 0 := by
  have hbytes : (List.range 256).all (fun k =>
      decide (UInt8.ofNat k &&& 0xC0 = 0x80 ->
        ¬ UInt8.ofNat k < 0x80 ∧ utf8Lead (UInt8.ofNat k) = none ∧
          UInt8.ofNat k ≠ 0)) = true := by
    decide +kernel
  have hb := of_decide_eq_true
    (List.all_eq_true.mp hbytes b.toNat (List.mem_range.mpr b.toNat_lt))
  rw [UInt8.ofNat_toNat] at hb
  exact hb h

/-- The bytes behind the first one of a sequence. -/
theorem validatedTail_nonneg {least : Nat} {n : Nat} :
    forall {wc : Nat} {rest : Bytes}, 0 ≤ validatedTail least n wc rest ->
      exists taken after, rest = taken ++ after ∧ taken.length = n ∧
        forall b, b ∈ taken -> Continuation b := by
  induction n with
  | zero =>
      intro wc rest _
      exact ⟨[], rest, rfl, rfl, fun b hb => absurd hb List.not_mem_nil⟩
  | succ n ih =>
      intro wc rest h
      unfold validatedTail at h
      dsimp only at h
      split at h
      · next hcont =>
          cases rest with
          | nil => exact absurd hcont (by decide)
          | cons ch rest =>
              rcases ih h with ⟨taken, after, heq, hlength, hall⟩
              refine ⟨ch :: taken, after, ?_, ?_, ?_⟩
              · exact congrArg (ch :: .) heq
              · exact congrArg Nat.succ hlength
              · intro b hb
                rcases List.mem_cons.mp hb with rfl | hb
                · exact hcont
                · exact hall b hb
      · split at h
        · exact absurd h (by decide)
        · exact absurd h (by decide)

/-- An error in the first bytes is an error of the whole. -/
theorem validatedTail_take {least : Nat} {n : Nat} :
    forall (k wc : Nat) (rest : Bytes),
      (validatedTail least n wc (rest.take k) = -1 ->
        validatedTail least n wc rest = -1) ∧
      (validatedTail least n wc rest = -2 ->
        validatedTail least n wc (rest.take k) = -2) := by
  induction n with
  | zero => exact fun k wc rest => ⟨id, id⟩
  | succ n ih =>
      intro k wc rest
      cases k with
      | zero =>
          have hend : validatedTail least (n + 1) wc (rest.take 0) = -2 := by
            rw [List.take_zero]
            rfl
          rw [hend]
          exact ⟨fun h => absurd h (by decide), fun _ => rfl⟩
      | succ k =>
          cases rest with
          | nil => exact ⟨id, id⟩
          | cons ch rest =>
              rw [List.take_succ_cons]
              unfold validatedTail
              dsimp only [List.headD_cons, List.tail_cons]
              split
              · exact ih k _ rest
              · split
                · exact ⟨id, id⟩
                · exact ⟨id, id⟩

theorem validatedTail_utf8Tail (least : Nat) (chr : Gunichar) (rest : Bytes)
    (count : Nat) :
    validatedTail least count (chr >>> (6 * count))
        (utf8Tail chr count ++ rest) = validatedCode least chr := by
  induction count with
  | zero => rfl
  | succ count ih =>
      have hbyte := continuation_byte (chr >>> (6 * count))
      have hshift : chr >>> (6 * (count + 1)) = (chr >>> (6 * count)) >>> 6 := by
        rw [Nat.mul_add, Nat.shiftRight_add]
      rw [utf8Tail, List.cons_append, validatedTail, List.headD_cons,
        if_pos hbyte.1, hbyte.2, hshift, join_bits]
      exact ih

/-- A sequence with the code that is read from it. -/
structure Sequence (b : UInt8) (tail : Bytes) (x : Nat) : Prop where
  skip : utf8Skip b = tail.length + 1
  short : tail.length < 4
  lead : ¬ Continuation b
  zero : b = 0 <-> x = 0
  code : forall rest, utf8GetCharValidated (b :: (tail ++ rest)) = x

theorem sequence_single {x : Nat} (h : x < 0x80) :
    Sequence (UInt8.ofNat x) [] x := by
  have hbytes : forall k : Fin 0x80, UInt8.ofNat k.val < 0x80 ∧
      (UInt8.ofNat k.val).toNat = k.val ∧ utf8Skip (UInt8.ofNat k.val) = 1 ∧
      ¬ UInt8.ofNat k.val &&& 0xC0 = 0x80 ∧
      (UInt8.ofNat k.val = 0 <-> k.val = 0) := by
    decide
  rcases hbytes ⟨x, h⟩ with ⟨hlt, hnat, hskip, hlead, hzero⟩
  refine ⟨hskip, by decide, hlead, hzero, ?_⟩
  intro rest
  unfold utf8GetCharValidated
  dsimp only [List.headD_cons]
  rw [if_pos hlt, hnat]

/-- The first byte decides how the others are read. -/
theorem sequence_of_lead {b : UInt8} {x n least : Nat} (hn : n < 4)
    (hb : ¬ b < 0x80) (hlead : utf8Lead b = some (n, x >>> (6 * n), least))
    (hleast : least ≤ x) (hpos : 0 < least)
    (hvalid : unicharValidate x = true) : Sequence b (utf8Tail x n) x := by
  refine ⟨?_, ?_, ?_, ?_, ?_⟩
  · rw [length_utf8Tail]
    exact (utf8Skip_lead hlead).1
  · rw [length_utf8Tail]
    exact hn
  · intro hcont
    rw [(continuation_high hcont).2.1] at hlead
    cases hlead
  · constructor
    · intro hzero
      rw [hzero] at hb
      exact absurd (by decide) hb
    · intro hzero
      omega
  · intro rest
    unfold utf8GetCharValidated
    dsimp only [List.headD_cons, List.tail_cons]
    rw [if_neg hb, hlead]
    dsimp only
    rw [validatedTail_utf8Tail]
    unfold validatedCode
    rw [if_neg (Nat.not_lt.mpr hleast), if_pos hvalid]

theorem lead_double (k : Fin 0x20) :
    ¬ UInt8.ofNat (0xC0 ||| k.val) < 0x80 ∧
      utf8Lead (UInt8.ofNat (0xC0 ||| k.val)) = some (1, k.val, 0x80) := by
  revert k
  decide

theorem lead_triple (k : Fin 0x10) :
    ¬ UInt8.ofNat (0xE0 ||| k.val) < 0x80 ∧
      utf8Lead (UInt8.ofNat (0xE0 ||| k.val)) = some (2, k.val, 0x800) := by
  revert k
  decide

theorem lead_quadruple (k : Fin 8) :
    ¬ UInt8.ofNat (0xF0 ||| k.val) < 0x80 ∧
      utf8Lead (UInt8.ofNat (0xF0 ||| k.val)) = some (3, k.val, 0x10000) := by
  revert k
  decide

theorem shiftRight_lt {x n bound : Nat} (h : x < 2 ^ n * bound) :
    x >>> n < bound := by
  rw [Nat.shiftRight_eq_div_pow]
  exact Nat.div_lt_of_lt_mul h

/-- What `g_unichar_to_utf8()` writes for a valid code. -/
theorem sequence_unicharToUtf8 {x : Nat} (hvalid : unicharValidate x = true) :
    exists b tail, unicharToUtf8 x = b :: tail ∧ Sequence b tail x := by
  have hbound := lt_of_unicharValidate hvalid
  unfold unicharToUtf8
  simp only
  split
  · next h1 => exact ⟨_, _, rfl, sequence_single h1⟩
  next h1 =>
  split
  · next h2 =>
      have hlead := lead_double ⟨x >>> 6, shiftRight_lt h2⟩
      exact ⟨_, _, rfl, sequence_of_lead (by decide) hlead.1 hlead.2
        (Nat.not_lt.mp h1) (by decide) hvalid⟩
  next h2 =>
  split
  · next h3 =>
      have hlead := lead_triple ⟨x >>> 12, shiftRight_lt h3⟩
      exact ⟨_, _, rfl, sequence_of_lead (by decide) hlead.1 hlead.2
        (Nat.not_lt.mp h2) (by decide) hvalid⟩
  next h3 =>
  have hlead := lead_quadruple ⟨x >>> 18, shiftRight_lt hbound⟩
  exact ⟨_, _, rfl, sequence_of_lead (by decide) hlead.1 hlead.2
    (Nat.not_lt.mp h3) (by decide) hvalid⟩

theorem validatedTail_least {least : Nat} (n : Nat) :
    forall (wc : Nat) (rest : Bytes), -2 ≤ validatedTail least n wc rest := by
  induction n with
  | zero =>
      intro wc rest
      change -2 ≤ validatedCode least wc
      unfold validatedCode
      split
      · decide
      · split
        · omega
        · decide
  | succ n ih =>
      intro wc rest
      unfold validatedTail
      dsimp only
      split
      · exact ih _ _
      · split
        · decide
        · exact Int.le_refl _

/-!
## Positions in a C string
-/

/-- The character at a position which is not negative. -/
def externalAt (str : Bytes) (p : Nat) : Int :=
  if utf8Strlen str ≤ p then -1
  else
    let q := utf8OffsetToPointer p str
    if q.headD 0 ≠ 0 then utf8GetCharValidated q else 0

theorem externalGetCharacter_eq (str : Bytes) (position : TecoInt) :
    externalGetCharacter str position =
      if position.toInt < 0 then -1
      else externalAt str position.toInt.toNat := by
  unfold externalGetCharacter externalAt
  by_cases hneg : position.toInt < 0
  · rw [if_pos (.inl hneg), if_pos hneg]
  · rw [if_neg hneg]
    by_cases hend : utf8Strlen str ≤ position.toInt.toNat
    · rw [if_pos hend, if_pos (.inr (by omega))]
    · rw [if_neg hend, if_neg (by omega)]

theorem strlenFrom_fuel (fuel : Nat) :
    forall (fuel' : Nat) (str : Bytes), str.length ≤ fuel ->
      str.length ≤ fuel' -> strlenFrom fuel str = strlenFrom fuel' str := by
  induction fuel with
  | zero =>
      intro fuel' str h _
      have hnil := List.length_eq_zero_iff.mp (Nat.le_zero.mp h)
      rw [hnil]
      cases fuel' <;> rfl
  | succ fuel ih =>
      intro fuel' str h h'
      cases str with
      | nil => cases fuel' <;> rfl
      | cons b rest =>
          cases fuel' with
          | zero => cases h'
          | succ fuel' =>
              have hskip : 0 < utf8Skip b := by
                unfold utf8Skip
                repeat' split
                all_goals decide
              have hdrop : ((b :: rest).drop (utf8Skip b)).length ≤
                  rest.length := by
                rw [List.length_drop, List.length_cons]
                omega
              rw [List.length_cons] at h h'
              unfold strlenFrom
              rw [ih fuel' _ (by omega) (by omega)]

/-- A complete sequence is one character of the string. -/
theorem utf8Strlen_sequence {b : UInt8} {tail : Bytes} (hb : b ≠ 0)
    (hskip : utf8Skip b = tail.length + 1) (rest : Bytes) :
    utf8Strlen (b :: (tail ++ rest)) = utf8Strlen rest + 1 := by
  have hdrop : (b :: (tail ++ rest)).drop (utf8Skip b) = rest := by
    rw [hskip, List.drop_succ_cons, List.drop_left]
  have hle : utf8Skip b ≤ (b :: (tail ++ rest)).length := by
    rw [hskip, List.length_cons, List.length_append]
    omega
  unfold utf8Strlen
  change strlenFrom ((tail ++ rest).length + 1) (b :: (tail ++ rest)) = _
  rw [strlenFrom, if_neg hb, if_pos hle, hdrop,
    strlenFrom_fuel _ rest.length rest (by rw [List.length_append]; omega)
      (Nat.le_refl _)]

theorem externalAt_sequence {b : UInt8} {tail : Bytes} (hb : b ≠ 0)
    (hskip : utf8Skip b = tail.length + 1) (rest : Bytes) (p : Nat) :
    externalAt (b :: (tail ++ rest)) (p + 1) = externalAt rest p := by
  have hdrop : (b :: (tail ++ rest)).drop (utf8Skip b) = rest := by
    rw [hskip, List.drop_succ_cons, List.drop_left]
  have hpointer : utf8OffsetToPointer (p + 1) (b :: (tail ++ rest)) =
      utf8OffsetToPointer p rest := by
    rw [utf8OffsetToPointer, List.headD_cons, hdrop]
  unfold externalAt
  rw [utf8Strlen_sequence hb hskip, hpointer]
  simp only [Nat.add_le_add_iff_right]

/-!
## Positions in a document
-/

/-- The character in front of a text. -/
def bufferCharacter (rest : Bytes) : Int :=
  if rest.headD 0 = 0 then 0
  else
    let rc := utf8GetCharValidated (rest.take 4)
    if rc < 0 then rc - 1 else rc

def documentAt (characters : List Bytes) (p : Nat) : Int :=
  if p < characters.length then bufferCharacter (characters.drop p).flatten
  else -1

theorem viewGetCharacter_eq {d : Document} (h : d.characterIndex = true)
    (pos : Nat) :
    viewGetCharacter d pos d.text.length =
      bufferCharacter (d.text.drop pos) := by
  have hbuf : (d.text.drop pos).take (min d.text.length (pos + 4) - pos) =
      (d.text.drop pos).take 4 := by
    have hmin : min d.text.length (pos + 4) - pos =
        min 4 (d.text.drop pos).length := by
      rw [List.length_drop]
      omega
    rw [hmin, <- List.take_take, List.take_length]
  have hhead : ((d.text.drop pos).take 4).headD 0 =
      (d.text.drop pos).headD 0 := by
    cases d.text.drop pos <;> rfl
  unfold viewGetCharacter bufferCharacter
  dsimp only
  rw [h, if_neg (by decide), hbuf, hhead]

theorem plainGetCharacter_eq {sci : Scintilla} {d : Document} {l : Layout}
    (h : l.Answers sci) (hd : l.Of d) (hindex : d.characterIndex = true)
    (position : TecoInt) :
    plainGetCharacter sci d position =
      if position.toInt < 0 then -1
      else documentAt l.characters position.toInt.toNat := by
  have hglyphs := Layout.glyphs2bytes_eq h hd position
  unfold plainGetCharacter
  dsimp only
  by_cases hneg : position.toInt < 0
  · rw [if_neg (fun hin => absurd hin.1 (Int.not_le.mpr hneg))] at hglyphs
    rw [hglyphs, if_neg (fun hoff => absurd hoff.1 (by decide)), if_pos hneg]
  rw [if_neg hneg]
  unfold documentAt
  by_cases hin : position.toInt ≤ l.characters.length
  · have hle : position.toInt.toNat ≤ l.characters.length := by omega
    rw [if_pos ⟨by omega, hin⟩] at hglyphs
    rw [hglyphs, Int.toNat_natCast]
    by_cases hlt : position.toInt.toNat < l.characters.length
    · have hbefore := Layout.position_lt hlt (Nat.le_refl _)
      rw [Layout.position_length, <- hd.text] at hbefore
      have hdrop : d.text.drop (l.position position.toInt.toNat) =
          (l.characters.drop position.toInt.toNat).flatten := by
        have hsplit : l.text =
            (l.characters.take position.toInt.toNat).flatten ++
              (l.characters.drop position.toInt.toNat).flatten := by
          rw [<- List.flatten_append, List.take_append_drop]
          rfl
        unfold Layout.position
        rw [hd.text, hsplit, List.drop_left]
      rw [if_pos ⟨by omega, by omega⟩, if_pos hlt, <- hdrop]
      exact viewGetCharacter_eq hindex _
    · have hend : position.toInt.toNat = l.characters.length := by omega
      rw [hend, Layout.position_length, hd.text,
        if_neg (fun hoff => hoff.2 rfl), if_neg (Nat.lt_irrefl _)]
  · rw [if_neg (fun hboth => hin hboth.2)] at hglyphs
    rw [hglyphs, if_neg (fun hoff => absurd hoff.1 (by decide)),
      if_neg (by omega)]

/-!
## Agreement
-/

/-- The characters of a document are sequences, or bytes that are in none. -/
def Segmented (characters : List Bytes) : Prop :=
  forall chr, chr ∈ characters -> IsSequence chr ∨ exists b, chr = [b]

/-- The character and the position of a string are those of the document. -/
def AgreeAt (characters : List Bytes) (p : Nat) : Prop :=
  externalAt characters.flatten p = documentAt characters p

theorem Segmented.tail {chr : Bytes} {characters : List Bytes}
    (h : Segmented (chr :: characters)) : Segmented characters :=
  fun chr' hchr => h chr' (List.mem_cons_of_mem chr hchr)

theorem documentAt_cons (chr : Bytes) (characters : List Bytes) (p : Nat) :
    documentAt (chr :: characters) (p + 1) = documentAt characters p := by
  unfold documentAt
  rw [List.length_cons, List.drop_succ_cons]
  simp only [Nat.add_lt_add_iff_right]

/-- A sequence is read completely from the buffer. -/
theorem bufferCharacter_sequence {b : UInt8} {tail : Bytes} {x : Nat}
    (h : Sequence b tail x) (rest : Bytes) :
    bufferCharacter (b :: (tail ++ rest)) = x := by
  have hshort := h.short
  have htake : (b :: (tail ++ rest)).take 4 =
      b :: (tail ++ rest.take (3 - tail.length)) := by
    rw [List.take_succ_cons, List.take_append,
      List.take_of_length_le (by omega)]
  unfold bufferCharacter
  rw [List.headD_cons]
  by_cases hb : b = 0
  · rw [if_pos hb, h.zero.mp hb]
    rfl
  · rw [if_neg hb, htake, h.code]
    exact if_neg (Int.not_lt.mpr (Int.natCast_nonneg x))

/-- A sequence agrees and is passed in both strings. -/
theorem agreeAt_sequence {b : UInt8} {tail : Bytes} {x : Nat}
    (h : Sequence b tail x) (hb : b ≠ 0) (characters : List Bytes) :
    AgreeAt ((b :: tail) :: characters) 0 ∧
      forall p, AgreeAt ((b :: tail) :: characters) (p + 1) <->
        AgreeAt characters p := by
  constructor
  · change externalAt (b :: (tail ++ characters.flatten)) 0 =
      bufferCharacter (b :: (tail ++ characters.flatten))
    unfold externalAt
    rw [utf8Strlen_sequence hb h.skip, if_neg (Nat.not_succ_le_zero _),
      bufferCharacter_sequence h]
    change (if b ≠ 0 then
      utf8GetCharValidated (b :: (tail ++ characters.flatten)) else 0) = _
    rw [if_pos hb, h.code]
  · intro p
    unfold AgreeAt
    rw [documentAt_cons]
    change externalAt (b :: (tail ++ characters.flatten)) (p + 1) = _ <-> _
    rw [externalAt_sequence hb h.skip]

theorem agree_of_sequences {characters : List Bytes}
    (h : forall chr, chr ∈ characters -> IsSequence chr ∧ chr ≠ [0]) :
    forall p, AgreeAt characters p := by
  induction characters with
  | nil => exact fun p => rfl
  | cons chr characters ih =>
      rcases h chr List.mem_cons_self with ⟨⟨x, hvalid, hchr⟩, hne⟩
      rcases sequence_unicharToUtf8 hvalid with ⟨b, tail, heq, hseq⟩
      have hb : b ≠ 0 := by
        intro hzero
        have hx := hseq.zero.mp hzero
        rw [hx] at hchr
        exact hne hchr
      rw [hchr, heq]
      have hagree := agreeAt_sequence hseq hb characters
      intro p
      cases p with
      | zero => exact hagree.1
      | succ p =>
          exact (hagree.2 p).mpr
            (ih (fun c hc => h c (List.mem_cons_of_mem chr hc)) p)

theorem validated_take (p : Bytes) :
    (utf8GetCharValidated (p.take 4) = -1 -> utf8GetCharValidated p = -1) ∧
      (utf8GetCharValidated p = -2 ->
        utf8GetCharValidated (p.take 4) = -2) := by
  cases p with
  | nil => exact ⟨id, id⟩
  | cons b rest =>
      unfold utf8GetCharValidated
      dsimp only [List.take_succ_cons, List.headD_cons, List.tail_cons]
      split
      · exact ⟨id, id⟩
      · cases utf8Lead b with
        | none => exact ⟨id, id⟩
        | some lead => exact validatedTail_take 3 lead.2.1 rest

theorem validated_least (p : Bytes) : -2 ≤ utf8GetCharValidated p := by
  unfold utf8GetCharValidated
  dsimp only
  split
  · omega
  · cases utf8Lead (p.headD 0) with
    | none => exact (by decide : (-2 : Int) ≤ -1)
    | some lead => exact validatedTail_least lead.1 lead.2.1 p.tail

/-- No character of a C string is reported as incomplete. -/
theorem externalAt_least (str : Bytes) (p : Nat) : -2 ≤ externalAt str p := by
  unfold externalAt
  dsimp only
  split
  · decide
  · split
    · exact validated_least _
    · decide

/-- Bytes that start no sequence are on their own. -/
theorem Segmented.split {taken : Bytes}
    (hall : forall b, b ∈ taken -> Continuation b) {after : Bytes} :
    forall {characters : List Bytes}, Segmented characters ->
      characters.flatten = taken ++ after ->
      (forall chr, chr ∈ characters -> chr ≠ []) ->
      exists characters', characters =
          taken.map (fun b => [b]) ++ characters' ∧
        characters'.flatten = after := by
  induction taken with
  | nil => exact fun {characters} _ heq _ => ⟨characters, rfl, heq⟩
  | cons t taken ih =>
      intro characters hseg heq hne
      cases characters with
      | nil => cases heq
      | cons chr characters =>
          have hcont := hall t List.mem_cons_self
          have hchr : chr = [t] := by
            rcases hseg chr List.mem_cons_self with ⟨x, hvalid, hx⟩ | ⟨b, hb⟩
            · rcases sequence_unicharToUtf8 hvalid with ⟨b, tail, hbytes, hseq⟩
              rw [hx, hbytes] at heq
              have hhead : b = t := by
                injection heq
              rw [<- hhead] at hcont
              exact absurd hcont hseq.lead
            · rw [hb] at heq ⊢
              have hhead : b = t := by
                injection heq
              rw [hhead]
          rw [hchr] at heq ⊢
          have hrest : characters.flatten = taken ++ after := by
            injection heq
          rcases ih (fun b hb => hall b (List.mem_cons_of_mem t hb))
            hseg.tail hrest (fun c hc => hne c (List.mem_cons_of_mem chr hc))
            with ⟨characters', hsplit, hflat⟩
          exact ⟨characters', by rw [hsplit]; rfl, hflat⟩

theorem documentAt_append (bytes : Bytes) (characters : List Bytes)
    (p : Nat) :
    documentAt (bytes.map (fun b => [b]) ++ characters) (bytes.length + p) =
      documentAt characters p := by
  induction bytes with
  | nil =>
      rw [List.length_nil, Nat.zero_add]
      rfl
  | cons b bytes ih =>
      have hp : (b :: bytes).length + p = (bytes.length + p) + 1 := by
        rw [List.length_cons]
        omega
      rw [hp, List.map_cons, List.cons_append, documentAt_cons]
      exact ih

/-- What is decoded behind a byte from 0x80 on. -/
theorem validated_nonneg {b : UInt8} {rest : Bytes} (hb : ¬ b < 0x80)
    (h : 0 ≤ utf8GetCharValidated ((b :: rest).take 4)) :
    exists taken after, rest = taken ++ after ∧
      utf8Skip b = taken.length + 1 ∧ taken ≠ [] ∧
      forall t, t ∈ taken -> Continuation t := by
  unfold utf8GetCharValidated at h
  dsimp only [List.take_succ_cons, List.headD_cons, List.tail_cons] at h
  rw [if_neg hb] at h
  cases hlead : utf8Lead b with
  | none =>
      rw [hlead] at h
      exact absurd h (by decide : ¬ (0 : Int) ≤ -1)
  | some lead =>
      rcases lead with ⟨n, wc, least⟩
      rw [hlead] at h
      rcases validatedTail_nonneg h with ⟨taken, after, heq, hlength, hall⟩
      have hskip := utf8Skip_lead hlead
      refine ⟨taken, after ++ rest.drop 3, ?_, ?_, ?_, hall⟩
      · rw [<- List.append_assoc, <- heq, List.take_append_drop]
      · rw [hlength]
        exact hskip.1
      · intro hnil
        rw [hnil] at hlength
        exact absurd hskip.2 (Nat.not_lt.mpr (Nat.le_of_eq hlength.symm))

/-- An incomplete sequence is no character of a document. -/
theorem bufferCharacter_incomplete {rest : Bytes} (hhead : rest.headD 0 ≠ 0)
    (h : utf8GetCharValidated rest = -2) : bufferCharacter rest = -3 := by
  unfold bufferCharacter
  rw [if_neg hhead, (validated_take rest).2 h]
  rfl

theorem bufferCharacter_continuation {t : UInt8} (h : Continuation t)
    (rest : Bytes) : bufferCharacter (t :: rest) = -2 := by
  have hhigh := continuation_high h
  have hcode : utf8GetCharValidated ((t :: rest).take 4) = -1 := by
    unfold utf8GetCharValidated
    dsimp only [List.take_succ_cons, List.headD_cons]
    rw [if_neg hhigh.1, hhigh.2.1]
  unfold bufferCharacter
  rw [List.headD_cons, if_neg hhigh.2.2, hcode]
  rfl

/-- Where a C string has an invalid character, it begins one. -/
theorem externalAt_incomplete {str : Bytes} (h : externalAt str 0 = -2) :
    str.headD 0 ≠ 0 ∧ utf8GetCharValidated str = -2 := by
  unfold externalAt at h
  split at h
  · exact absurd h (by decide)
  · change (if str.headD 0 ≠ 0 then utf8GetCharValidated str else 0) = -2 at h
    split at h
    · next hhead => exact ⟨hhead, h⟩
    · exact absurd h (by decide)

/-- An error at the first byte makes a difference there. -/
theorem not_agree_error {b : UInt8} (hzero : b ≠ 0) {characters : List Bytes}
    (h : utf8GetCharValidated ((b :: characters.flatten).take 4) < 0) :
    ¬ AgreeAt ([b] :: characters) 0 := by
  have hdocument : documentAt ([b] :: characters) 0 =
      utf8GetCharValidated ((b :: characters.flatten).take 4) - 1 := by
    change bufferCharacter (b :: characters.flatten) = _
    unfold bufferCharacter
    rw [List.headD_cons, if_neg hzero]
    exact if_pos h
  have hleast := validated_least ((b :: characters.flatten).take 4)
  intro hagree
  have heq : externalAt (b :: characters.flatten) 0 =
      utf8GetCharValidated ((b :: characters.flatten).take 4) - 1 :=
    hagree.trans hdocument
  have hexternal := externalAt_least (b :: characters.flatten) 0
  have hinvalid : utf8GetCharValidated ((b :: characters.flatten).take 4) =
      -1 := by
    omega
  rw [hinvalid] at heq
  have hcode := (externalAt_incomplete heq).2
  have hwhole := (validated_take _).1 hinvalid
  rw [hwhole] at hcode
  exact absurd hcode (by decide)

/-- A byte that is in no sequence makes a difference. -/
theorem not_agree_single {b : UInt8} (hb : ¬ b < 0x80)
    {characters : List Bytes} (hseg : Segmented characters)
    (hne : forall chr, chr ∈ characters -> chr ≠ []) :
    exists p, p < ([b] :: characters).length ∧
      ¬ AgreeAt ([b] :: characters) p := by
  have hzero : b ≠ 0 := by
    intro h
    rw [h] at hb
    exact hb (by decide)
  by_cases herror :
      utf8GetCharValidated ((b :: characters.flatten).take 4) < 0
  · exact ⟨0, Nat.zero_lt_succ _, not_agree_error hzero herror⟩
  rcases validated_nonneg hb (Int.not_lt.mp herror) with
    ⟨taken, after, heq, hskip, htaken, hall⟩
  rcases hseg.split hall heq hne with ⟨characters', hsplit, hafter⟩
  cases htakencases : taken with
  | nil => exact absurd htakencases htaken
  | cons t taken' =>
      by_cases hagree : AgreeAt ([b] :: characters) 1
      · -- the string is incomplete behind the sequence that was divided
        have hone : documentAt ([b] :: characters) 1 = -2 := by
          rw [documentAt_cons, hsplit, htakencases]
          exact bufferCharacter_continuation
            (hall t (htakencases ▸ List.mem_cons_self)) _
        have hexternal : externalAt after 0 = -2 := by
          have hshift := externalAt_sequence hzero hskip after 0
          rw [<- heq] at hshift
          exact hshift.symm.trans (hagree.trans hone)
        have hincomplete := externalAt_incomplete hexternal
        have hmore : 0 < characters'.length := by
          apply List.length_pos_iff.mpr
          intro hnil
          rw [hnil] at hafter
          rw [<- hafter] at hincomplete
          exact hincomplete.1 rfl
        refine ⟨taken.length + 1, ?_, ?_⟩
        · rw [hsplit, List.length_cons, List.length_append, List.length_map]
          omega
        · intro hlater
          have hdocument : documentAt ([b] :: characters) (taken.length + 1) =
              -3 := by
            rw [documentAt_cons, hsplit]
            have happend := documentAt_append taken characters' 0
            rw [Nat.add_zero] at happend
            rw [happend]
            unfold documentAt
            rw [if_pos hmore, List.drop_zero, hafter]
            exact bufferCharacter_incomplete hincomplete.1 hincomplete.2
          have hleast := externalAt_least ([b] :: characters).flatten
            (taken.length + 1)
          have hvalue := hlater.trans hdocument
          omega
      · refine ⟨1, ?_, hagree⟩
        rw [hsplit, htakencases, List.length_cons, List.length_append,
          List.length_map, List.length_cons]
        omega

theorem isSequence_ascii {b : UInt8} (h : b < 0x80) : IsSequence [b] := by
  have hlt : b.toNat < 0x80 := UInt8.lt_iff_toNat_lt.mp h
  refine ⟨b.toNat, ?_, ?_⟩
  · unfold unicharValidate
    rw [decide_eq_true (Nat.lt_of_lt_of_le hlt (by decide)), Bool.true_or]
  · unfold unicharToUtf8
    dsimp only
    rw [if_pos hlt, UInt8.ofNat_toNat]

/-- A zero ends a C string. -/
theorem not_agree_zero (characters : List Bytes) :
    ¬ AgreeAt ([0] :: characters) 0 := by
  have hlength : utf8Strlen (0 :: characters.flatten) = 0 := by
    change strlenFrom (characters.flatten.length + 1)
      (0 :: characters.flatten) = 0
    rw [strlenFrom, if_pos rfl]
  have hexternal : externalAt ([0] :: characters).flatten 0 = -1 := by
    change externalAt (0 :: characters.flatten) 0 = -1
    unfold externalAt
    rw [hlength, if_pos (Nat.le_refl 0)]
  intro hagree
  unfold AgreeAt at hagree
  rw [hexternal] at hagree
  exact absurd hagree (by decide : ¬ (-1 : Int) = 0)

theorem sequences_of_agree {characters : List Bytes}
    (hseg : Segmented characters)
    (hne : forall chr, chr ∈ characters -> chr ≠ [])
    (h : forall p, p < characters.length -> AgreeAt characters p) :
    forall chr, chr ∈ characters -> IsSequence chr ∧ chr ≠ [0] := by
  induction characters with
  | nil => exact fun chr hchr => absurd hchr List.not_mem_nil
  | cons chr characters ih =>
      have hrest := fun c hc => hne c (List.mem_cons_of_mem chr hc)
      have hfirst : IsSequence chr := by
        rcases hseg chr List.mem_cons_self with hchr | ⟨b, hb⟩
        · exact hchr
        · by_cases hlow : b < 0x80
          · rw [hb]
            exact isSequence_ascii hlow
          · rw [hb] at h
            rcases not_agree_single hlow hseg.tail hrest with ⟨p, hp, hnot⟩
            exact absurd (h p hp) hnot
      have hzero : chr ≠ [0] := by
        intro hzero
        rw [hzero] at h
        exact not_agree_zero characters (h 0 (Nat.zero_lt_succ _))
      rcases hfirst with ⟨x, hvalid, hchr⟩
      rcases sequence_unicharToUtf8 hvalid with ⟨b, tail, heq, hsequence⟩
      have hb : b ≠ 0 := by
        intro h0
        have hx := hsequence.zero.mp h0
        rw [hx] at hchr
        exact hzero hchr
      have hshift := (agreeAt_sequence hsequence hb characters).2
      rw [<- heq, <- hchr] at hshift
      have hall := ih hseg.tail hrest (fun p hp =>
        (hshift p).mp (h (p + 1) (Nat.succ_lt_succ hp)))
      intro c hc
      rcases List.mem_cons.mp hc with rfl | hc
      · exact ⟨⟨x, hvalid, hchr⟩, hzero⟩
      · exact hall c hc

/-- The kinds of registers agree on all positions of a string if and only if
each character of the document is a valid sequence and none is a zero. -/
theorem getCharacter_agree_iff {sci : Scintilla} {d : Document} {l : Layout}
    (h : l.Answers sci) (hd : l.Of d) (hindex : d.characterIndex = true)
    (hseg : Segmented l.characters) :
    (forall position : TecoInt, externalGetCharacter d.text position =
        plainGetCharacter sci d position) <->
      forall chr, chr ∈ l.characters -> IsSequence chr ∧ chr ≠ [0] := by
  have htext : d.text = l.characters.flatten := hd.text
  constructor
  · intro hall
    apply sequences_of_agree hseg (fun chr hchr => Layout.characters_ne hchr)
    intro p hp
    have hsize := Nat.lt_of_lt_of_le hp Layout.length_le_text
    have hlt := Nat.lt_trans hsize h.length_lt
    have hint : (BitVec.ofNat 64 p).toInt = p := by
      rw [<- BitVec.ofInt_natCast, BitVec.toInt_ofInt]
      exact Int.bmod_eq_of_le (by omega) (by omega)
    have hnonneg : ¬ (BitVec.ofNat 64 p).toInt < 0 := by omega
    have hposition := hall (BitVec.ofNat 64 p)
    rw [externalGetCharacter_eq, plainGetCharacter_eq h hd hindex,
      if_neg hnonneg, if_neg hnonneg, hint, Int.toNat_natCast, htext]
      at hposition
    exact hposition
  · intro hall position
    rw [externalGetCharacter_eq, plainGetCharacter_eq h hd hindex, htext]
    split
    · rfl
    · exact agree_of_sequences hall _

/-- Such a document is a text in UTF-8 without zeros. -/
theorem text_of_sequences {l : Layout}
    (h : forall chr, chr ∈ l.characters -> IsSequence chr ∧ chr ≠ [0]) :
    exists text, ValidText text ∧ 0 ∉ text ∧ l.text = encoded text := by
  unfold Layout.text
  generalize l.characters = characters at h
  induction characters with
  | nil =>
      exact ⟨[], fun _ hx => absurd hx List.not_mem_nil, List.not_mem_nil, rfl⟩
  | cons chr characters ih =>
      rcases h chr List.mem_cons_self with ⟨⟨x, hvalid, hchr⟩, hne⟩
      rcases ih (fun c hc => h c (List.mem_cons_of_mem chr hc)) with
        ⟨text, htext, hzero, heq⟩
      refine ⟨x :: text, ?_, ?_, ?_⟩
      · intro y hy
        rcases List.mem_cons.mp hy with rfl | hy
        · exact hvalid
        · exact htext y hy
      · intro hmem
        rcases List.mem_cons.mp hmem with rfl | hmem
        · exact hne hchr
        · exact hzero hmem
      · rw [List.flatten_cons, heq, hchr, encoded_cons]

/-- The second letter of two lines. -/
theorem getCharacter_agree_iff_letter :
    externalGetCharacter Layout.twoLines.text 2 =
      plainGetCharacter Layout.twoLines.scintilla
        (Document.create Layout.twoLines.text true) 2 := by
  have hsequence : IsSequence [0xC3, 0xA4] := ⟨0xE4, by decide, by decide⟩
  have hanswers : Layout.twoLines.Answers Layout.twoLines.scintilla :=
    Layout.scintilla_answers (by decide)
  have hof : Layout.twoLines.Of
      (Document.create Layout.twoLines.text true) :=
    ⟨rfl, fun h => by cases h⟩
  refine (getCharacter_agree_iff hanswers hof rfl ?_).mpr ?_ 2
  · intro chr hchr
    rcases List.mem_cons.mp hchr with rfl | hchr
    · exact .inl hsequence
    · right
      rcases List.mem_cons.mp hchr with rfl | hchr
      · exact ⟨_, rfl⟩
      · exact ⟨_, List.mem_singleton.mp hchr⟩
  · intro chr hchr
    rcases List.mem_cons.mp hchr with rfl | hchr
    · exact ⟨hsequence, by decide⟩
    · rcases List.mem_cons.mp hchr with rfl | hchr
      · exact ⟨isSequence_ascii (by decide), by decide⟩
      · rw [List.mem_singleton.mp hchr]
        exact ⟨isSequence_ascii (by decide), by decide⟩

/-- A byte which is in no sequence. -/
def strayByte : Layout where
  lines := [[[0xFF]]]
  lines_ne := List.cons_ne_nil _ _
  character_ne := by decide

theorem getCharacter_stray :
    ¬ forall (sci : Scintilla) (d : Document) (l : Layout),
      l.Answers sci -> l.Of d -> d.characterIndex = true ->
      Segmented l.characters ->
      forall position : TecoInt, externalGetCharacter d.text position =
        plainGetCharacter sci d position := by
  intro hall
  have hseg : Segmented strayByte.characters := by
    intro chr hchr
    exact .inr ⟨_, List.mem_singleton.mp hchr⟩
  have hagree := hall strayByte.scintilla
    (Document.create strayByte.text true) strayByte
    (Layout.scintilla_answers (by decide)) ⟨rfl, fun h => by cases h⟩ rfl hseg
    0
  exact absurd hagree (by decide)

end QReg
end SciTECO
