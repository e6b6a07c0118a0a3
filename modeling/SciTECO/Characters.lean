import SciTECO.Strings

/-!
# Strings of characters

A string is read a character at a time with `g_utf8_get_char()` and
`g_utf8_next_char()`.  On valid strings this undoes `g_unichar_to_utf8()`.
-/

namespace SciTECO

/-- A text in UTF-8. -/
def encoded (text : List Gunichar) : Bytes := text.flatMap unicharToUtf8

/-- The characters of a string, of which the fuel is the length. -/
def charactersFrom : Nat -> Bytes -> List Gunichar
  | _, [] => []
  | 0, _ => []
  | fuel + 1, b :: rest =>
      utf8GetChar (b :: rest) ::
        charactersFrom fuel ((b :: rest).drop (utf8Skip b))

def characters (str : Bytes) : List Gunichar :=
  charactersFrom str.length str

/-- All characters are valid. -/
def ValidText (text : List Gunichar) : Prop :=
  forall chr, chr ∈ text -> unicharValidate chr = true

instance (text : List Gunichar) : Decidable (ValidText text) :=
  inferInstanceAs (Decidable (forall chr, chr ∈ text -> _))

def ValidUtf8 (str : Bytes) : Prop := validateUtf8 str.length str = true

@[simp] theorem encoded_nil : encoded [] = [] := rfl

@[simp] theorem encoded_cons (chr : Gunichar) (text : List Gunichar) :
    encoded (chr :: text) = unicharToUtf8 chr ++ encoded text := rfl

@[simp] theorem encoded_append (first second : List Gunichar) :
    encoded (first ++ second) = encoded first ++ encoded second :=
  List.flatMap_append

/-!
## A single character
-/

theorem continuation_byte (x : Nat) :
    UInt8.ofNat (0x80 ||| (x &&& 0x3F)) &&& 0xC0 = 0x80 ∧
      (UInt8.ofNat (0x80 ||| (x &&& 0x3F)) &&& 0x3F).toNat = x &&& 0x3F := by
  have hbytes : forall v : Fin 64,
      UInt8.ofNat (0x80 ||| v.val) &&& 0xC0 = 0x80 ∧
        (UInt8.ofNat (0x80 ||| v.val) &&& 0x3F).toNat = v.val := by decide
  have hlt : x &&& 0x3F < 64 := Nat.and_lt_two_pow x (by decide : 0x3F < 2 ^ 6)
  exact hbytes ⟨x &&& 0x3F, hlt⟩

theorem join_bits (x : Nat) : ((x >>> 6) <<< 6) ||| (x &&& 0x3F) = x := by
  have hmod : x &&& 0x3F = x % 2 ^ 6 := Nat.and_two_pow_sub_one_eq_mod x 6
  rw [hmod, Nat.shiftLeft_eq, Nat.shiftRight_eq_div_pow, Nat.mul_comm,
    <- Nat.two_pow_add_eq_or_of_lt (Nat.mod_lt x (by decide)) (x / 2 ^ 6)]
  exact Nat.div_add_mod x (2 ^ 6)

/-- The continuation bytes give back the low bits. -/
theorem utf8Continue_tail (chr : Gunichar) (rest : Bytes) (count : Nat) :
    utf8Continue count (chr >>> (6 * count)) (utf8Tail chr count ++ rest) =
      chr := by
  induction count with
  | zero => rfl
  | succ count ih =>
      have hbyte := continuation_byte (chr >>> (6 * count))
      have hshift : chr >>> (6 * (count + 1)) = (chr >>> (6 * count)) >>> 6 := by
        rw [Nat.mul_add, Nat.shiftRight_add]
      rw [utf8Tail, List.cons_append, utf8Continue, if_pos hbyte.1, hbyte.2,
        hshift, join_bits]
      exact ih

theorem length_utf8Tail (chr : Gunichar) (count : Nat) :
    (utf8Tail chr count).length = count := by
  induction count with
  | zero => rfl
  | succ count ih => rw [utf8Tail, List.length_cons, ih]

/-- A sequence is read as a character.  Its first byte tells its length. -/
structure ReadsAs (b : UInt8) (tail : Bytes) (chr : Gunichar) : Prop where
  skip : utf8Skip b = tail.length + 1
  char : forall rest, utf8GetChar (b :: tail ++ rest) = chr

theorem readsAs_single {chr : Gunichar} (h : chr < 0x80) :
    ReadsAs (UInt8.ofNat chr) [] chr := by
  have hbytes : forall x : Fin 0x80, UInt8.ofNat x.val < 0x80 ∧
      (UInt8.ofNat x.val).toNat = x.val ∧ utf8Skip (UInt8.ofNat x.val) = 1 := by
    decide
  rcases hbytes ⟨chr, h⟩ with ⟨hlt, hnat, hskip⟩
  constructor
  · exact hskip
  · intro rest
    rw [List.cons_append, utf8GetChar, if_pos hlt]
    exact hnat

theorem readsAs_double {chr : Gunichar} (h : chr < 0x800) :
    ReadsAs (UInt8.ofNat (0xC0 ||| (chr >>> 6))) (utf8Tail chr 1) chr := by
  have hbytes : forall x : Fin 0x20,
      ¬ UInt8.ofNat (0xC0 ||| x.val) < 0x80 ∧
        ¬ UInt8.ofNat (0xC0 ||| x.val) < 0xC0 ∧
        UInt8.ofNat (0xC0 ||| x.val) < 0xE0 ∧
        (UInt8.ofNat (0xC0 ||| x.val) &&& 0x1F).toNat = x.val ∧
        utf8Skip (UInt8.ofNat (0xC0 ||| x.val)) = 2 := by
    decide
  have hlt : chr >>> 6 < 0x20 := by
    rw [Nat.shiftRight_eq_div_pow]
    exact Nat.div_lt_of_lt_mul h
  rcases hbytes ⟨chr >>> 6, hlt⟩ with ⟨h80, hC0, hE0, hnat, hskip⟩
  constructor
  · rw [length_utf8Tail]
    exact hskip
  · intro rest
    rw [List.cons_append, utf8GetChar, if_neg h80, if_neg hC0, if_pos hE0,
      hnat]
    exact utf8Continue_tail chr rest 1

theorem readsAs_triple {chr : Gunichar} (h : chr < 0x10000) :
    ReadsAs (UInt8.ofNat (0xE0 ||| (chr >>> 12))) (utf8Tail chr 2) chr := by
  have hbytes : forall x : Fin 0x10,
      ¬ UInt8.ofNat (0xE0 ||| x.val) < 0x80 ∧
        ¬ UInt8.ofNat (0xE0 ||| x.val) < 0xC0 ∧
        ¬ UInt8.ofNat (0xE0 ||| x.val) < 0xE0 ∧
        UInt8.ofNat (0xE0 ||| x.val) < 0xF0 ∧
        (UInt8.ofNat (0xE0 ||| x.val) &&& 0x0F).toNat = x.val ∧
        utf8Skip (UInt8.ofNat (0xE0 ||| x.val)) = 3 := by
    decide
  have hlt : chr >>> 12 < 0x10 := by
    rw [Nat.shiftRight_eq_div_pow]
    exact Nat.div_lt_of_lt_mul h
  rcases hbytes ⟨chr >>> 12, hlt⟩ with ⟨h80, hC0, hE0, hF0, hnat, hskip⟩
  constructor
  · rw [length_utf8Tail]
    exact hskip
  · intro rest
    rw [List.cons_append, utf8GetChar, if_neg h80, if_neg hC0, if_neg hE0,
      if_pos hF0, hnat]
    exact utf8Continue_tail chr rest 2

theorem readsAs_quadruple {chr : Gunichar} (h : chr < 0x200000) :
    ReadsAs (UInt8.ofNat (0xF0 ||| (chr >>> 18))) (utf8Tail chr 3) chr := by
  have hbytes : forall x : Fin 8,
      ¬ UInt8.ofNat (0xF0 ||| x.val) < 0x80 ∧
        ¬ UInt8.ofNat (0xF0 ||| x.val) < 0xC0 ∧
        ¬ UInt8.ofNat (0xF0 ||| x.val) < 0xE0 ∧
        ¬ UInt8.ofNat (0xF0 ||| x.val) < 0xF0 ∧
        UInt8.ofNat (0xF0 ||| x.val) < 0xF8 ∧
        (UInt8.ofNat (0xF0 ||| x.val) &&& 0x07).toNat = x.val ∧
        utf8Skip (UInt8.ofNat (0xF0 ||| x.val)) = 4 := by
    decide
  have hlt : chr >>> 18 < 8 := by
    rw [Nat.shiftRight_eq_div_pow]
    exact Nat.div_lt_of_lt_mul h
  rcases hbytes ⟨chr >>> 18, hlt⟩ with ⟨h80, hC0, hE0, hF0, hF8, hnat, hskip⟩
  constructor
  · rw [length_utf8Tail]
    exact hskip
  · intro rest
    rw [List.cons_append, utf8GetChar, if_neg h80, if_neg hC0, if_neg hE0,
      if_neg hF0, if_pos hF8, hnat]
    exact utf8Continue_tail chr rest 3

/-- What `g_unichar_to_utf8()` writes is read as the character. -/
theorem unicharToUtf8_readsAs {chr : Gunichar} (h : chr < 0x200000) :
    exists b tail, unicharToUtf8 chr = b :: tail ∧ ReadsAs b tail chr := by
  unfold unicharToUtf8
  simp only
  split
  · next h1 => exact ⟨_, _, rfl, readsAs_single h1⟩
  split
  · next h2 => exact ⟨_, _, rfl, readsAs_double h2⟩
  split
  · next h3 => exact ⟨_, _, rfl, readsAs_triple h3⟩
  · exact ⟨_, _, rfl, readsAs_quadruple h⟩

theorem lt_of_unicharValidate {chr : Gunichar}
    (h : unicharValidate chr = true) : chr < 0x200000 := by
  have hcases : chr < 0xD800 ∨ (0xDFFF < chr ∧ chr < 0x110000) := by
    simpa [unicharValidate] using h
  rcases hcases with hlow | ⟨_, hhigh⟩
  · exact Nat.lt_of_lt_of_le hlow (by decide)
  · exact Nat.lt_of_lt_of_le hhigh (by decide)

theorem unicharToUtf8_ascii {chr : Gunichar} (h : chr < 0x80) :
    unicharToUtf8 chr = [UInt8.ofNat chr] := by
  unfold unicharToUtf8
  exact if_pos h

theorem or_high {lead : Nat} (hlead : ¬ UInt8.ofNat lead < 0x80) (x : Nat) :
    ¬ UInt8.ofNat (lead ||| x) < 0x80 := by
  have hbytes : forall b c : UInt8, 0x80 ≤ b.toNat -> 0x80 ≤ (b ||| c).toNat := by
    intro b c hb
    rw [UInt8.toNat_or]
    exact Nat.le_trans hb Nat.left_le_or
  rw [UInt8.ofNat_or]
  exact Nat.not_lt.mpr (hbytes _ _ (Nat.not_lt.mp hlead))

theorem utf8Tail_high {chr : Gunichar} {count : Nat} {b : UInt8}
    (hb : b ∈ utf8Tail chr count) : ¬ b < 0x80 := by
  induction count with
  | zero => cases hb
  | succ count ih =>
      rcases List.mem_cons.mp hb with rfl | hb
      · exact or_high (by decide) _
      · exact ih hb

/-- Only the first 128 characters have ASCII bytes. -/
theorem unicharToUtf8_high {chr : Gunichar} (h : ¬ chr < 0x80) {b : UInt8}
    (hb : b ∈ unicharToUtf8 chr) : ¬ b < 0x80 := by
  have hencode : forall lead count : Nat, ¬ UInt8.ofNat lead < 0x80 ->
      b ∈ UInt8.ofNat (lead ||| (chr >>> (6 * count))) :: utf8Tail chr count ->
      ¬ b < 0x80 := by
    intro lead count hlead hmem
    rcases List.mem_cons.mp hmem with rfl | hmem
    · exact or_high hlead _
    · exact utf8Tail_high hmem
  unfold unicharToUtf8 at hb
  simp only [if_neg h] at hb
  split at hb
  · exact hencode 0xC0 1 (by decide) hb
  split at hb
  · exact hencode 0xE0 2 (by decide) hb
  split at hb
  · exact hencode 0xF0 3 (by decide) hb
  split at hb
  · exact hencode 0xF8 4 (by decide) hb
  · exact hencode 0xFC 5 (by decide) hb

/-!
## Strings
-/

theorem charactersFrom_encoded {text : List Gunichar} (h : ValidText text)
    (fuel : Nat) (hfuel : (encoded text).length ≤ fuel) :
    charactersFrom fuel (encoded text) = text := by
  induction text generalizing fuel with
  | nil => cases fuel <;> rfl
  | cons chr text ih =>
      have hchr := lt_of_unicharValidate (h chr List.mem_cons_self)
      rcases unicharToUtf8_readsAs hchr with ⟨b, tail, heq, hread⟩
      rw [encoded_cons, heq] at hfuel ⊢
      cases fuel with
      | zero => cases hfuel
      | succ fuel =>
          have hdrop : (b :: tail ++ encoded text).drop (utf8Skip b) =
              encoded text := by
            rw [hread.skip]
            exact List.drop_left
          have hrest : (encoded text).length ≤ fuel := by
            simp only [List.length_append, List.length_cons] at hfuel
            omega
          rw [List.cons_append, charactersFrom, <- List.cons_append,
            hread.char, hdrop,
            ih (fun x hx => h x (List.mem_cons_of_mem chr hx)) fuel hrest]

/-- The characters of a text in UTF-8. -/
theorem characters_encoded {text : List Gunichar} (h : ValidText text) :
    characters (encoded text) = text :=
  charactersFrom_encoded h _ (Nat.le_refl _)

theorem exists_text_of_validate {str : Bytes} {fuel : Nat}
    (h : validateUtf8 fuel str = true) :
    exists text, ValidText text ∧ encoded text = str := by
  induction fuel generalizing str with
  | zero =>
      cases str with
      | nil => exact ⟨[], fun _ hx => absurd hx List.not_mem_nil, rfl⟩
      | cons b rest => cases h
  | succ fuel ih =>
      cases str with
      | nil => exact ⟨[], fun _ hx => absurd hx List.not_mem_nil, rfl⟩
      | cons b rest =>
          simp only [validateUtf8, Bool.and_eq_true] at h
          rcases h with ⟨⟨hvalid, hstart⟩, hrest⟩
          rcases ih hrest with ⟨text, htext, heq⟩
          refine ⟨utf8GetChar (b :: rest) :: text, ?_, ?_⟩
          · intro chr hchr
            rcases List.mem_cons.mp hchr with rfl | hchr
            · exact hvalid
            · exact htext chr hchr
          · rcases unicharToUtf8_readsAs (lt_of_unicharValidate hvalid) with
              ⟨b', tail, hutf8, hread⟩
            rcases List.isPrefixOf_iff_prefix.mp hstart with ⟨after, hafter⟩
            rw [hutf8] at hafter
            have hb : b' = b := by
              injection hafter
            rw [encoded_cons, heq, hutf8]
            rw [<- hafter, <- hb, hread.skip]
            congr 1
            exact List.drop_left

/-- A valid string is the text of its characters. -/
theorem encoded_characters {str : Bytes} (h : ValidUtf8 str) :
    encoded (characters str) = str ∧ ValidText (characters str) := by
  rcases exists_text_of_validate h with ⟨text, htext, rfl⟩
  rw [characters_encoded htext]
  exact ⟨rfl, htext⟩

/-!
## Beginnings of texts
-/

theorem ValidText.left {front back : List Gunichar}
    (h : ValidText (front ++ back)) : ValidText front :=
  fun chr hchr => h chr (List.mem_append_left back hchr)

theorem ValidText.right {front back : List Gunichar}
    (h : ValidText (front ++ back)) : ValidText back :=
  fun chr hchr => h chr (List.mem_append_right front hchr)

theorem ValidText.append {front back : List Gunichar} (hfront : ValidText front)
    (hback : ValidText back) : ValidText (front ++ back) := by
  intro chr hchr
  rcases List.mem_append.mp hchr with hmem | hmem
  · exact hfront chr hmem
  · exact hback chr hmem

/-- A text in UTF-8 begins with whole characters. -/
theorem encoded_begins {front text : List Gunichar} (hfront : ValidText front)
    (htext : ValidText text) (h : encoded front <+: encoded text) :
    front <+: text := by
  induction front generalizing text with
  | nil => exact List.nil_prefix
  | cons chr front ih =>
      rcases unicharToUtf8_readsAs (lt_of_unicharValidate
        (hfront chr List.mem_cons_self)) with ⟨b, tail, hchr, hread⟩
      rcases h with ⟨rest, hrest⟩
      cases text with
      | nil =>
          rw [encoded_cons, hchr] at hrest
          cases hrest
      | cons chr' text =>
          rcases unicharToUtf8_readsAs (lt_of_unicharValidate
            (htext chr' List.mem_cons_self)) with ⟨b', tail', hchr', hread'⟩
          have hsame : chr = chr' := by
            have hget := hread.char (encoded front ++ rest)
            have hget' := hread'.char (encoded text)
            rw [encoded_cons, hchr, encoded_cons, hchr',
              List.append_assoc] at hrest
            rw [hrest] at hget
            exact hget.symm.trans hget'
          subst hsame
          rw [encoded_cons, encoded_cons, List.append_assoc] at hrest
          have hback := List.append_cancel_left hrest
          exact List.cons_prefix_cons.mpr ⟨rfl,
            ih (fun x hx => hfront x (List.mem_cons_of_mem chr hx))
              (fun x hx => htext x (List.mem_cons_of_mem chr hx))
              ⟨rest, hback⟩⟩

theorem length_encoded_lt {front : List Gunichar} {chr : Gunichar}
    {back : List Gunichar} :
    (encoded front).length < (encoded (front ++ chr :: back)).length := by
  have hpos := List.length_pos_iff.mpr (unicharToUtf8_ne_nil chr)
  rw [encoded_append, encoded_cons, List.length_append, List.length_append]
  omega

/-- The shorter one of two beginnings. -/
theorem begins_of_length_le {front front' text : List Gunichar}
    (h : front <+: text) (h' : front' <+: text)
    (hle : (encoded front).length ≤ (encoded front').length) :
    front <+: front' := by
  rcases List.prefix_or_prefix_of_prefix h h' with hfront | hfront
  · exact hfront
  · rcases hfront with ⟨back, rfl⟩
    cases back with
    | nil => exact ⟨[], by rw [List.append_nil, List.append_nil]⟩
    | cons chr back =>
        exact absurd length_encoded_lt (Nat.not_lt.mpr hle)

/-- No text ends within a character. -/
theorem begins_of_lt {front text rest : List Gunichar} {chr : Gunichar}
    (h : front <+: text ++ chr :: rest)
    (hlt : (encoded front).length < (encoded (text ++ [chr])).length) :
    front <+: text := by
  have hsplit : text ++ chr :: rest = (text ++ [chr]) ++ rest := by
    rw [List.append_assoc, List.singleton_append]
  rw [hsplit] at h
  have hshort := begins_of_length_le h (List.prefix_append _ rest)
    (Nat.le_of_lt hlt)
  rcases List.prefix_concat_iff.mp hshort with heq | hfront
  · rw [heq] at hlt
    exact absurd hlt (Nat.lt_irrefl _)
  · exact hfront

end SciTECO
