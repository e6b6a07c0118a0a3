import Mathlib.Data.List.Induction
import Mathlib.Data.List.TakeWhile
import SciTECO.Eol.RoundTrip
import SciTECO.Parser.FileCoord

/-!
# Error coordinates in the editor

An error in a file is reported by coordinates in its bytes.  They are looked up
in the text that the editor shows for the file, which has line feeds only.
-/

namespace SciTECO
namespace Parser

/-!
## Texts with line feeds
-/

/-- Characters with normalized line ends.  The flag is set behind a carriage
return. -/
def normalizeText : Bool -> List Gunichar -> List Gunichar
  | _, [] => []
  | flag, chr :: text =>
      if chr = 13 then 10 :: normalizeText true text
      else if chr = 10 then
        if flag then normalizeText false text
        else 10 :: normalizeText false text
      else chr :: normalizeText false text

theorem normalizeText_cr (flag : Bool) (text : List Gunichar) :
    normalizeText flag (13 :: text) = 10 :: normalizeText true text := rfl

theorem normalizeText_lf (text : List Gunichar) :
    normalizeText false (10 :: text) = 10 :: normalizeText false text := rfl

theorem normalizeText_crlf (text : List Gunichar) :
    normalizeText true (10 :: text) = normalizeText false text := rfl

theorem normalizeText_other {chr : Gunichar} (hcr : chr ≠ 13)
    (hlf : chr ≠ 10) (flag : Bool) (text : List Gunichar) :
    normalizeText flag (chr :: text) = chr :: normalizeText false text := by
  rw [normalizeText, if_neg hcr, if_neg hlf]

/-- Only the characters CR and LF have these bytes. -/
theorem plain_character {chr : Gunichar} (hcr : chr ≠ 13) (hlf : chr ≠ 10) :
    forall b, b ∈ unicharToUtf8 chr -> b ≠ 13 ∧ b ≠ 10 := by
  intro b hb
  by_cases hchr : chr < 0x80
  · have hnat : (UInt8.ofNat chr).toNat = chr :=
      UInt8.toNat_ofNat_of_lt' (Nat.lt_trans hchr (by decide))
    rw [unicharToUtf8_ascii hchr] at hb
    rw [List.mem_singleton.mp hb]
    constructor
    · intro heq
      rw [heq] at hnat
      exact hcr hnat.symm
    · intro heq
      rw [heq] at hnat
      exact hlf hnat.symm
  · have hhigh := unicharToUtf8_high hchr hb
    constructor
    · intro heq
      rw [heq] at hhigh
      exact hhigh (by decide)
    · intro heq
      rw [heq] at hhigh
      exact hhigh (by decide)

/-- The reader normalizes the bytes of the characters. -/
theorem normalize_encoded (flag : Bool) (text : List Gunichar) :
    LineEnd.normalize
        (if flag then LineEnd.dropLf (encoded text) else encoded text) =
      encoded (normalizeText flag text) := by
  induction text generalizing flag with
  | nil => cases flag <;> rfl
  | cons chr text ih =>
      have htail := ih false
      have hbehind := ih true
      rw [if_neg Bool.false_ne_true] at htail
      rw [if_pos rfl] at hbehind
      unfold LineEnd.normalize at htail hbehind ⊢
      by_cases hcr : chr = 13
      · subst hcr
        have hbytes : encoded (13 :: text) = 13 :: encoded text := rfl
        have hkept : LineEnd.dropLf (13 :: encoded text) =
            13 :: encoded text := LineEnd.dropLf_cons (by decide) _
        rw [normalizeText_cr, hbytes, hkept, ite_self, LineEnd.encode_cr,
          hbehind]
        rfl
      · by_cases hlf : chr = 10
        · subst hlf
          rw [encoded_lf]
          cases flag with
          | true =>
              rw [if_pos rfl, LineEnd.dropLf_lf, normalizeText_crlf, htail]
          | false =>
              rw [if_neg Bool.false_ne_true, LineEnd.encode_lf,
                normalizeText_lf, htail]
              rfl
        · have hplain := plain_character hcr hlf
          have hkept : LineEnd.dropLf (encoded (chr :: text)) =
              encoded (chr :: text) := by
            rcases List.exists_cons_of_ne_nil (unicharToUtf8_ne_nil chr) with
              ⟨b, tail, heq⟩
            have hb := hplain b (heq ▸ List.mem_cons_self)
            rw [encoded_cons, heq]
            exact LineEnd.dropLf_cons hb.2 _
          rw [normalizeText_other hcr hlf, hkept, ite_self, encoded_cons,
            LineEnd.encode_append_plain _ hplain, htail, encoded_cons]

/-!
## Counting
-/

/-- The line of a position behind a text, where 1 is the first one. -/
def lineOf (text : List Gunichar) : Nat := text.count 10 + 1

/-- The column of a position behind a text. -/
def columnOf (text : List Gunichar) : Nat :=
  (text.reverse.takeWhile (fun chr => chr != 10)).length + 1

theorem lineOf_lf (text : List Gunichar) :
    lineOf (text ++ [10]) = lineOf text + 1 := by
  unfold lineOf
  rw [List.count_append, List.count_singleton_self]

theorem lineOf_other {chr : Gunichar} (h : chr ≠ 10) (text : List Gunichar) :
    lineOf (text ++ [chr]) = lineOf text := by
  unfold lineOf
  rw [List.count_append, List.count_singleton, if_neg (by simpa using h)]

theorem columnOf_lf (text : List Gunichar) : columnOf (text ++ [10]) = 1 := by
  unfold columnOf
  rw [List.reverse_append]
  rfl

theorem columnOf_other {chr : Gunichar} (h : chr ≠ 10)
    (text : List Gunichar) :
    columnOf (text ++ [chr]) = columnOf text + 1 := by
  unfold columnOf
  rw [List.reverse_append, List.reverse_singleton, List.singleton_append,
    List.takeWhile_cons_of_pos (by simpa using h), List.length_cons]

/-- Go over a character of a text in the editor. -/
def Coord.next (c : Coord) (chr : Gunichar) : Coord :=
  if chr = 10 then c.newline else c.glyph

/-- The coordinates only depend on the normalized text. -/
theorem over_normalizeText (c : Coord) (flag : Bool) (text : List Gunichar) :
    (Coord.over (c, flag) text).1 =
      (normalizeText flag text).foldl Coord.next c := by
  induction text generalizing c flag with
  | nil => rfl
  | cons chr text ih =>
      rw [over_cons]
      by_cases hcr : chr = 13
      · subst hcr
        exact ih c.newline true
      · by_cases hlf : chr = 10
        · subst hlf
          cases flag with
          | true => exact ih c false
          | false => exact ih c.newline false
        · have hread : Coord.read (c, flag) chr = (c.glyph, false) := by
            unfold Coord.read
            rw [if_neg hcr, if_neg hlf]
          have hnext : c.next chr = c.glyph := if_neg hlf
          rw [hread, ih, normalizeText_other hcr hlf, List.foldl_cons, hnext]

/-- What is counted. -/
theorem foldl_next (text : List Gunichar) :
    text.foldl Coord.next Coord.first =
      { pos := BitVec.ofNat 32 text.length
        line := BitVec.ofNat 32 (lineOf text)
        column := BitVec.ofNat 32 (columnOf text) } := by
  induction text using List.reverseRecOn with
  | nil => rfl
  | append_singleton text chr ih =>
      rw [List.foldl_append, ih, List.length_append]
      change Coord.next _ chr = _
      unfold Coord.next
      by_cases hlf : chr = 10
      · subst hlf
        rw [if_pos rfl, lineOf_lf, columnOf_lf, BitVec.ofNat_add,
          BitVec.ofNat_add]
        rfl
      · rw [if_neg hlf, lineOf_other hlf, columnOf_other hlf, BitVec.ofNat_add,
          BitVec.ofNat_add]
        rfl

/-- The coordinates are those of a position behind a text. -/
def Shows (coord : Option Coord) (front : List Gunichar) : Prop :=
  exists c, coord = some c ∧ c.pos.toNat = front.length ∧
    c.line.toNat = lineOf front ∧ c.column.toNat = columnOf front

/-- The characters in front are not as many as would be needed for a number
of a line or column which does not fit. -/
def Countable (front : List Gunichar) : Prop :=
  front.length + 1 = 2 ^ 32 ->
    10 ∈ front ∧ exists chr, chr ∈ front ∧ chr ≠ 10

theorem toNat_ofNat_iff (n : Nat) :
    (BitVec.ofNat 32 n).toNat = n <-> n < 2 ^ 32 := by
  rw [BitVec.toNat_ofNat]
  constructor
  · intro h
    rw [<- h]
    exact Nat.mod_lt _ (by decide)
  · exact fun h => Nat.mod_eq_of_lt h

theorem lineOf_le (front : List Gunichar) :
    lineOf front ≤ front.length + 1 :=
  Nat.succ_le_succ List.count_le_length

theorem columnOf_le (front : List Gunichar) :
    columnOf front ≤ front.length + 1 := by
  have hle := (List.takeWhile_sublist
    (fun chr : Gunichar => chr != 10) (l := front.reverse)).length_le
  rw [List.length_reverse] at hle
  exact Nat.succ_le_succ hle

theorem lineOf_eq_iff (front : List Gunichar) :
    lineOf front = front.length + 1 <->
      forall chr, chr ∈ front -> chr = 10 := by
  unfold lineOf
  rw [Nat.succ_inj, List.count_eq_length]
  exact ⟨fun h chr hchr => (h chr hchr).symm,
    fun h chr hchr => (h chr hchr).symm⟩

theorem columnOf_eq_iff (front : List Gunichar) :
    columnOf front = front.length + 1 <-> 10 ∉ front := by
  unfold columnOf
  rw [Nat.succ_inj]
  constructor
  · intro hlen hmem
    have hall : front.reverse.takeWhile (fun chr => chr != 10) =
        front.reverse :=
      (List.takeWhile_sublist _).eq_of_length
        (hlen.trans List.length_reverse.symm)
    have hten := List.takeWhile_eq_self_iff.mp hall 10
      (List.mem_reverse.mpr hmem)
    exact absurd hten (by decide)
  · intro hnot
    have hall : front.reverse.takeWhile (fun chr => chr != 10) =
        front.reverse := by
      apply List.takeWhile_eq_self_iff.mpr
      intro chr hchr
      apply bne_iff_ne.mpr
      rintro rfl
      exact hnot (List.mem_reverse.mp hchr)
    rw [hall, List.length_reverse]

/-- The counters do not overflow. -/
theorem shows_iff {front : List Gunichar} (h : front.length < 2 ^ 32) :
    Shows (some (front.foldl Coord.next Coord.first)) front <->
      Countable front := by
  have hline := lineOf_le front
  have hcolumn := columnOf_le front
  have hlast := lineOf_eq_iff front
  have hwide := columnOf_eq_iff front
  rw [foldl_next]
  constructor
  · rintro ⟨c, hc, _, hcline, hccolumn⟩ hfull
    cases hc
    rw [toNat_ofNat_iff] at hcline hccolumn
    constructor
    · apply Decidable.byContradiction
      intro hnot
      rw [hwide.mpr hnot, hfull] at hccolumn
      exact Nat.lt_irrefl _ hccolumn
    · apply Decidable.byContradiction
      intro hnone
      have hall : forall chr, chr ∈ front -> chr = 10 := by
        intro chr hchr
        apply Decidable.byContradiction
        exact fun hne => hnone ⟨chr, hchr, hne⟩
      rw [hlast.mpr hall, hfull] at hcline
      exact Nat.lt_irrefl _ hcline
  · intro hcountable
    refine ⟨_, rfl, ?_, ?_, ?_⟩
    · exact (toNat_ofNat_iff _).mpr h
    · apply (toNat_ofNat_iff _).mpr
      apply Nat.lt_of_not_le
      intro hle
      have hfull : front.length + 1 = 2 ^ 32 := by omega
      rcases (hcountable hfull).2 with ⟨chr, hchr, hne⟩
      exact hne (hlast.mp (by omega) chr hchr)
    · apply (toNat_ofNat_iff _).mpr
      apply Nat.lt_of_not_le
      intro hle
      have hfull : front.length + 1 = 2 ^ 32 := by omega
      exact hwide.mp (by omega) (hcountable hfull).1

/-!
## Loaded files
-/

theorem validText_normalizeText {text : List Gunichar} (h : ValidText text)
    (flag : Bool) : ValidText (normalizeText flag text) := by
  induction text generalizing flag with
  | nil => exact h
  | cons chr text ih =>
      have hrest : ValidText text :=
        fun x hx => h x (List.mem_cons_of_mem chr hx)
      have hcons : forall {x : Gunichar}, unicharValidate x = true ->
          forall flag', ValidText (x :: normalizeText flag' text) := by
        intro x hx flag' y hy
        rcases List.mem_cons.mp hy with rfl | hy
        · exact hx
        · exact ih hrest flag' y hy
      rw [normalizeText]
      split
      · exact hcons (by decide) true
      · split
        · split
          · exact ih hrest false
          · exact hcons (by decide) false
        · exact hcons (h chr List.mem_cons_self) false

theorem length_normalizeText (flag : Bool) (text : List Gunichar) :
    (normalizeText flag text).length ≤ text.length := by
  induction text generalizing flag with
  | nil => exact Nat.le_refl _
  | cons chr text ih =>
      rw [normalizeText]
      split
      · exact Nat.succ_le_succ (ih true)
      · split
        · split
          · exact Nat.le_succ_of_le (ih false)
          · exact Nat.succ_le_succ (ih false)
        · exact Nat.succ_le_succ (ih false)

/-- The offset is between a carriage return and its line feed. -/
def SplitsCrlf (str : Bytes) (off : Nat) : Prop :=
  (str.take off).getLast? = some 13 ∧ (str.drop off).head? = some 10

instance (str : Bytes) (off : Nat) : Decidable (SplitsCrlf str off) :=
  inferInstanceAs (Decidable (_ ∧ _))

theorem inRange_of_lt {front behind : Bytes} (h : front.length < 2 ^ 32)
    (hcrlf : ¬ SplitsCrlf (front ++ behind) front.length) :
    InRange (front ++ behind) front.length := by
  refine ⟨h, ?_⟩
  rintro ⟨hfull, hcr, hlf⟩
  apply hcrlf
  unfold SplitsCrlf
  rw [List.take_left, List.drop_left]
  rcases List.eq_nil_or_concat front with rfl | ⟨init, b, rfl⟩
  · exact absurd hfull (by decide)
  · rw [List.concat_eq_append] at hcr hlf ⊢
    rw [charAt_append] at hlf
    rw [List.length_append, List.length_singleton, Nat.add_sub_cancel,
      List.append_assoc, charAt_append] at hcr
    have hb : b = 13 := hcr
    rcases cons_of_charAt hlf (by decide) with ⟨rest, rfl⟩
    rw [hb, List.getLast?_concat]
    exact ⟨rfl, rfl⟩

/-- The coordinates of an offset in a file are those of its position in the
text that is read from the file. -/
theorem getCoord_loaded_iff (stream : Eol.Stream) (off : Nat)
    (hoff : IsBoundary stream.bytes off)
    (hcrlf : ¬ SplitsCrlf stream.bytes off) :
    exists front behind,
      front = LineEnd.normalize (stream.bytes.take off) ∧
        (exists fuel r, Eol.Reader.convertAll true fuel stream.reader =
          some (.ok (front ++ behind), r)) ∧
        (Shows (stringGetCoord stream.bytes off) (characters front) <->
          off < 2 ^ 32 ∧ Countable (characters front)) := by
  refine ⟨_, LineEnd.normalize (stream.bytes.drop off), rfl, ?_, ?_⟩
  · rcases stream.reads with ⟨fuel, r, hrun, _⟩
    have happend := LineEnd.encode_append .lf
      (fun hcr hlf => hcrlf ⟨hcr, hlf⟩)
    rw [List.take_append_drop] at happend
    unfold LineEnd.normalize at hrun ⊢
    rw [happend] at hrun
    exact ⟨fuel, r, hrun⟩
  · rcases hoff with ⟨pre, post, hvalid, hbytes, rfl⟩
    rw [encoded_append] at hbytes
    have hpre : ValidText pre :=
      fun x hx => hvalid x (List.mem_append_left _ hx)
    have hfront : characters (LineEnd.normalize
        ((encoded pre ++ encoded post).take (encoded pre).length)) =
        normalizeText false pre := by
      have hnormal := normalize_encoded false pre
      rw [if_neg Bool.false_ne_true] at hnormal
      rw [List.take_left, hnormal]
      exact characters_encoded (validText_normalizeText hpre false)
    rw [hbytes] at hcrlf ⊢
    rw [hfront]
    by_cases hlt : (encoded pre).length < 2 ^ 32
    · have hlength : (normalizeText false pre).length < 2 ^ 32 :=
        Nat.lt_of_le_of_lt (Nat.le_trans (length_normalizeText false pre)
          (length_le_encoded pre)) hlt
      rw [stringGetCoord_eq hpre (inRange_of_lt hlt hcrlf),
        over_normalizeText, shows_iff hlength]
      exact ⟨fun h => ⟨hlt, h⟩, fun h => h.2⟩
    · have hbeyond : ¬ InRange (encoded pre ++ encoded post)
          (encoded pre).length := fun h => hlt h.1
      rw [stringGetCoord_none hpre hbeyond]
      constructor
      · rintro ⟨c, hc, _⟩
        cases hc
      · exact fun h => absurd h.1 hlt

/-- In the last line of a file with three kinds of line ends. -/
theorem getCoord_loaded_mixed :
    let stream : Eol.Stream :=
      { chunks := [[0x61, 13], [10, 13, 0xC3], [0xA4, 10, 0x62]]
        fits := by decide }
    Shows (stringGetCoord stream.bytes 8) [0x61, 10, 10, 0xE4, 10, 0x62] := by
  intro stream
  have hoff : IsBoundary stream.bytes 8 :=
    ⟨[0x61, 13, 10, 13, 0xE4, 10, 0x62], [], by decide, by decide, by decide⟩
  rcases getCoord_loaded_iff stream 8 hoff (by decide) with
    ⟨front, _, hfront, _, hiff⟩
  have hcharacters : characters front = [0x61, 10, 10, 0xE4, 10, 0x62] := by
    rw [hfront]
    decide
  rw [hcharacters] at hiff
  exact hiff.mpr ⟨by decide, fun hfull => absurd hfull (by decide)⟩

theorem encoded_replicate (n : Nat) :
    encoded (List.replicate n 97) = List.replicate n 97 := by
  induction n with
  | zero => rfl
  | succ n ih =>
      rw [List.replicate_succ, encoded_cons, ih]
      rfl

/-- The index does not get to the end of a file of 4 GiB. -/
theorem getCoord_loaded_large :
    ¬ forall (stream : Eol.Stream) (off : Nat),
      IsBoundary stream.bytes off -> ¬ SplitsCrlf stream.bytes off ->
      Shows (stringGetCoord stream.bytes off)
        (characters (LineEnd.normalize (stream.bytes.take off))) := by
  intro hall
  have hbytes : (List.replicate (2 ^ 22)
      (List.replicate 1024 (97 : UInt8))).flatten =
      encoded (List.replicate (2 ^ 22 * 1024) 97) := by
    rw [List.flatten_replicate_replicate, encoded_replicate]
  have hlength : (encoded (List.replicate (2 ^ 22 * 1024) 97)).length =
      2 ^ 32 := by
    have hproduct : 2 ^ 22 * 1024 = 2 ^ 32 := by omega
    rw [encoded_replicate, List.length_replicate, hproduct]
  have hvalid : ValidText (List.replicate (2 ^ 22 * 1024) 97) := by
    intro chr hchr
    rw [List.eq_of_mem_replicate hchr]
    decide
  have hfits : forall chunk, chunk ∈ List.replicate (2 ^ 22)
      (List.replicate 1024 (97 : UInt8)) -> chunk.length ≤ 1024 := by
    intro chunk hchunk
    rw [List.eq_of_mem_replicate hchunk, List.length_replicate]
  have hcrlf : ¬ SplitsCrlf
      (encoded (List.replicate (2 ^ 22 * 1024) 97)) (2 ^ 32) := by
    rintro ⟨_, hlf⟩
    rw [List.drop_of_length_le (Nat.le_of_eq hlength)] at hlf
    cases hlf
  have hshows := hall ⟨_, hfits⟩ (2 ^ 32) (by
    unfold Eol.Stream.bytes
    refine ⟨List.replicate (2 ^ 22 * 1024) 97, [], ?_, ?_, hlength.symm⟩
    · rw [List.append_nil]
      exact hvalid
    · rw [List.append_nil]
      exact hbytes) (by
    unfold Eol.Stream.bytes
    rw [hbytes]
    exact hcrlf)
  unfold Eol.Stream.bytes at hshows
  rw [hbytes] at hshows
  rcases hshows with ⟨c, hc, _⟩
  have hnone := @getCoordLoop_beyond
    (encoded (List.replicate (2 ^ 22 * 1024) 97)) (2 ^ 32) (Nat.le_refl _)
    (2 ^ 32 + 1) 0 Coord.first
  unfold stringGetCoord at hc
  rw [hnone] at hc
  cases hc

end Parser
end SciTECO
