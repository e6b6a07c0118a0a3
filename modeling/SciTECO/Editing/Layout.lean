import Mathlib.Data.Nat.Find
import SciTECO.Editing.Positions

/-!
# Lines and characters

A text consists of lines, and lines of characters.  Scintilla answers questions
about positions by counting bytes or characters, and keeps an index of the
characters in front of each line.  With the documented answers it makes no
difference which way a position is found.
-/

namespace SciTECO
namespace Editing

/-- A text by lines and characters. -/
structure Layout where
  lines : List (List Bytes)
  lines_ne : lines ≠ []
  character_ne : forall line, line ∈ lines ->
    forall chr, chr ∈ line -> chr ≠ []

namespace Layout

variable (l : Layout)

def characters : List Bytes := l.lines.flatten

def text : Bytes := l.characters.flatten

/-- The position of a character in bytes. -/
def position (k : Nat) : Nat := (l.characters.take k).flatten.length

/-- The characters in front of a line. -/
def lineIndex (line : Nat) : Nat := (l.lines.take line).flatten.length

/-- The bytes in front of a line. -/
def linePosition (line : Nat) : Nat :=
  (l.lines.take line).flatten.flatten.length

/-- The last line which starts at a position or in front of it. -/
def lineAt (start : Nat -> Nat) (pos : Nat) : Nat :=
  Nat.findGreatest (fun line => start line ≤ pos) (l.lines.length - 1)

/-- The documented answers about a text.  Without a character
`SCI_POSITIONRELATIVE` returns 0.  Sizes are no larger than positions can
be. -/
structure Answers (sci : Scintilla) : Prop where
  length_lt : l.text.length < 2 ^ 63
  lineFromPosition : forall k, k ≤ l.characters.length ->
    sci.lineFromPosition l.text (l.position k) =
      l.lineAt l.linePosition (l.position k)
  positionFromLine : forall line : Nat, line < l.lines.length ->
    sci.positionFromLine l.text line = l.linePosition line
  lineFromIndexPosition : forall k : Nat,
    sci.lineFromIndexPosition l.text k = l.lineAt l.lineIndex k
  indexPositionFromLine : forall line : Nat, line < l.lines.length ->
    sci.indexPositionFromLine l.text line = l.lineIndex line
  countCharacters : forall i k, i ≤ k -> k ≤ l.characters.length ->
    sci.countCharacters l.text (l.position i) (l.position k) = k - i
  positionRelative : forall k, k ≤ l.characters.length -> forall n : Int,
    sci.positionRelative l.text (l.position k) n =
      if 0 ≤ k + n ∧ k + n ≤ l.characters.length then
        l.position (k + n).toNat
      else 0

/-- The text of a document.  Without an index of characters, every byte is a
character. -/
structure Of (d : Document) : Prop where
  text : d.text = l.text
  single : d.characterIndex = false ->
    forall chr, chr ∈ l.characters -> chr.length = 1

/-!
## Positions of characters
-/

variable {l}

theorem characters_ne {chr : Bytes} (h : chr ∈ l.characters) : chr ≠ [] := by
  rcases List.mem_flatten.mp h with ⟨line, hline, hchr⟩
  exact l.character_ne line hline chr hchr

theorem position_succ {k : Nat} (hk : k < l.characters.length) :
    l.position k < l.position (k + 1) := by
  have hne := characters_ne (List.getElem_mem hk)
  unfold position
  rw [List.take_add_one, List.getElem?_eq_getElem hk, List.flatten_append,
    List.length_append]
  have hpos : 0 < (Option.toList (some l.characters[k])).flatten.length := by
    change 0 < (l.characters[k] ++ []).length
    rw [List.append_nil]
    exact List.length_pos_iff.mpr hne
  omega

theorem position_lt {i k : Nat} (h : i < k) (hk : k ≤ l.characters.length) :
    l.position i < l.position k := by
  induction k with
  | zero => cases h
  | succ k ih =>
      have hstep := @position_succ l k hk
      rcases Nat.lt_succ_iff_lt_or_eq.mp h with hlt | heq
      · exact Nat.lt_trans (ih hlt (Nat.le_of_succ_le hk)) hstep
      · rw [heq]
        exact hstep

theorem position_pos {k : Nat} (h : 0 < k) (hk : k ≤ l.characters.length) :
    0 < l.position k :=
  position_lt h hk

theorem position_length : l.position l.characters.length = l.text.length := by
  unfold position text
  rw [List.take_length]

theorem length_le_text : l.characters.length ≤ l.text.length := by
  have hle : forall k, k ≤ l.characters.length -> k ≤ l.position k := by
    intro k
    induction k with
    | zero => exact fun _ => Nat.zero_le _
    | succ k ih =>
        intro hk
        have hstep := @position_succ l k hk
        have hbefore := ih (Nat.le_of_succ_le hk)
        omega
  rw [<- position_length]
  exact hle _ (Nat.le_refl _)

/-- In a single-byte encoding, positions are indexes. -/
theorem position_single
    (h : forall chr, chr ∈ l.characters -> chr.length = 1) {k : Nat}
    (hk : k ≤ l.characters.length) : l.position k = k := by
  unfold position
  rw [List.length_flatten, List.map_eq_replicate_iff.mpr
    (fun chr hchr => h chr (List.mem_of_mem_take hchr)), List.sum_replicate_nat,
    List.length_take, Nat.min_eq_left hk, Nat.mul_one]

/-!
## Lines
-/

theorem lineAt_lt (start : Nat -> Nat) (pos : Nat) :
    l.lineAt start pos < l.lines.length := by
  have hle := Nat.findGreatest_le (P := fun line => start line ≤ pos)
    (l.lines.length - 1)
  have hpos := List.length_pos_iff.mpr l.lines_ne
  unfold lineAt
  omega

theorem lineAt_start {start : Nat -> Nat} (hzero : start 0 = 0) (pos : Nat) :
    start (l.lineAt start pos) ≤ pos := by
  have hfirst : start 0 ≤ pos := by
    rw [hzero]
    exact Nat.zero_le pos
  exact Nat.findGreatest_spec (P := fun line => start line ≤ pos)
    (Nat.zero_le _) hfirst

/-- A line starts at one of the characters. -/
theorem linePosition_eq (line : Nat) :
    l.linePosition line = l.position (l.lineIndex line) := by
  have hsplit : l.characters =
      (l.lines.take line).flatten ++ (l.lines.drop line).flatten := by
    rw [<- List.flatten_append, List.take_append_drop]
    rfl
  unfold linePosition position lineIndex
  rw [hsplit, List.take_left]

theorem lineIndex_le (line : Nat) :
    l.lineIndex line ≤ l.characters.length := by
  have hsplit : l.characters =
      (l.lines.take line).flatten ++ (l.lines.drop line).flatten := by
    rw [<- List.flatten_append, List.take_append_drop]
    rfl
  unfold lineIndex
  rw [hsplit, List.length_append]
  exact Nat.le_add_right _ _

theorem le_of_position_le {i k : Nat} (hi : i ≤ l.characters.length)
    (h : l.position i ≤ l.position k) : i ≤ k := by
  by_contra hlt
  have hpos := position_lt (Nat.not_le.mp hlt) hi
  omega

/-!
## The conversions
-/

variable {sci : Scintilla} {d : Document}

/-- Any line will do to find a character from its beginning. -/
theorem glyphs2bytes_eq (h : l.Answers sci) (hd : l.Of d) (pos : TecoInt) :
    sci.glyphs2bytes d pos =
      if 0 ≤ pos.toInt ∧ pos.toInt ≤ l.characters.length then
        (l.position pos.toInt.toNat : Int)
      else -1 := by
  unfold Scintilla.glyphs2bytes
  split
  · next hneg => rw [if_neg (fun hin => absurd hin.1 (Int.not_le.mpr hneg))]
  next hneg =>
  split
  · next hzero =>
      rw [hzero, if_pos ⟨Int.le_refl 0, Int.natCast_nonneg _⟩]
      rfl
  next hzero =>
  cases hindex : d.characterIndex with
  | false =>
      have hsingle := hd.single hindex
      have hlength : l.text.length = l.characters.length := by
        rw [<- position_length, position_single hsingle (Nat.le_refl _)]
      rw [if_pos (by decide), hd.text, hlength]
      by_cases hle : pos.toInt ≤ l.characters.length
      · rw [if_pos hle, if_pos ⟨by omega, hle⟩,
          position_single hsingle (by omega)]
        omega
      · rw [if_neg hle, if_neg (fun hin => hle hin.2)]
  | true =>
      have hnat : ((pos.toInt.toNat : Nat) : Int) = pos.toInt :=
        Int.toNat_of_nonneg (by omega)
      have hline := @lineAt_lt l l.lineIndex pos.toInt.toNat
      rw [if_neg (by decide)]
      unfold Scintilla.validRelative
      rw [hd.text, <- hnat, h.lineFromIndexPosition]
      dsimp only
      rw [h.positionFromLine _ hline, h.indexPositionFromLine _ hline,
        linePosition_eq, h.positionRelative _ (lineIndex_le _)]
      have hsum : (l.lineIndex (l.lineAt l.lineIndex pos.toInt.toNat) : Int) +
          ((pos.toInt.toNat : Int) -
            l.lineIndex (l.lineAt l.lineIndex pos.toInt.toNat)) =
          pos.toInt.toNat := by
        omega
      rw [hsum, Int.toNat_natCast]
      by_cases hle : (pos.toInt.toNat : Int) ≤ l.characters.length
      · have hin : 0 ≤ (pos.toInt.toNat : Int) ∧
            (pos.toInt.toNat : Int) ≤ l.characters.length :=
          ⟨Int.natCast_nonneg _, hle⟩
        have hpos := @position_pos l pos.toInt.toNat (by omega) (by omega)
        rw [if_pos hin, if_pos hin, if_neg (Nat.pos_iff_ne_zero.mp hpos)]
      · have hout : ¬ (0 ≤ (pos.toInt.toNat : Int) ∧
            (pos.toInt.toNat : Int) ≤ l.characters.length) :=
          fun hin => hle hin.2
        rw [if_neg hout, if_neg hout, if_pos rfl]

theorem bytes2glyphs_eq (h : l.Answers sci) (hd : l.Of d) {k : Nat}
    (hk : k ≤ l.characters.length) :
    sci.bytes2glyphs d (l.position k) = k := by
  unfold Scintilla.bytes2glyphs
  split
  · next hzero =>
      cases k with
      | zero => rfl
      | succ k =>
          have hpos := @position_pos l (k + 1) (Nat.zero_lt_succ k) hk
          omega
  cases hindex : d.characterIndex with
  | false =>
      rw [if_pos (by decide), position_single (hd.single hindex) hk]
  | true =>
      have hline := @lineAt_lt l l.linePosition (l.position k)
      have hstart := @lineAt_start l l.linePosition rfl (l.position k)
      rw [linePosition_eq] at hstart
      have hle := le_of_position_le (lineIndex_le _) hstart
      rw [if_neg (by decide)]
      dsimp only
      rw [hd.text, h.lineFromPosition k hk, h.indexPositionFromLine _ hline,
        h.positionFromLine _ hline, linePosition_eq,
        h.countCharacters _ _ hle hk]
      omega

/-- The part of `teco_view_glyphs2bytes_relative()` that counts the
characters. -/
def relativeFast (sci : Scintilla) (d : Document) (pos : Nat) (n : TecoInt) :
    Int :=
  let res := sci.positionRelative d.text pos n.toInt
  if res ≠ 0 then res
  else if 0 < n.toInt then -1
  else if 0 ≤ sci.bytes2glyphs d pos + n.toInt then 0
  else -1

/-- The way over the position in glyphs. -/
def relativeSlow (sci : Scintilla) (d : Document) (pos : Nat) (n : TecoInt) :
    Int :=
  sci.glyphs2bytes d (BitVec.ofInt 64 (sci.bytes2glyphs d pos) + n)

theorem glyphs2bytesRelative_def (sci : Scintilla) (d : Document) (pos : Nat)
    (n : TecoInt) :
    sci.glyphs2bytesRelative d pos n =
      if n.toInt = 0 then (pos : Int)
      else if Scintilla.relativeLimit < (Scintilla.absInt n).toInt then
        relativeSlow sci d pos n
      else relativeFast sci d pos n := rfl

/-- The sum of a position and an offset, where only sums inside the document
matter. -/
theorem offset_toInt {k size : Nat} (hk : k ≤ size) (hsize : size < 2 ^ 63)
    (n : TecoInt) :
    (0 ≤ (BitVec.ofInt 64 k + n).toInt ∧
        (BitVec.ofInt 64 k + n).toInt ≤ size <->
      0 ≤ k + n.toInt ∧ k + n.toInt ≤ size) ∧
    (0 ≤ k + n.toInt ∧ k + n.toInt ≤ size ->
      (BitVec.ofInt 64 k + n).toInt = k + n.toInt) := by
  have hlow := BitVec.le_toInt n
  have hhigh := @BitVec.toInt_lt 64 n
  have hk' : (BitVec.ofInt 64 (k : Int)).toInt = k := by
    rw [BitVec.toInt_ofInt]
    exact Int.bmod_eq_of_le (by omega) (by omega)
  have hsum : (BitVec.ofInt 64 (k : Int) + n).toInt =
      ((k : Int) + n.toInt).bmod (2 ^ 64) := by
    rw [BitVec.toInt_add, hk']
  rw [hsum]
  by_cases hfits : (k : Int) + n.toInt < 2 ^ 63
  · rw [Int.bmod_eq_of_le (by omega) (by omega)]
    exact ⟨Iff.rfl, fun _ => rfl⟩
  · have hwrap : ((k : Int) + n.toInt).bmod (2 ^ 64) =
        (k : Int) + n.toInt - 2 ^ 64 := by
      rw [<- Int.sub_bmod_right]
      exact Int.bmod_eq_of_le (by omega) (by omega)
    rw [hwrap]
    constructor
    · constructor
      · intro hin
        omega
      · intro hin
        omega
    · intro hin
      omega

theorem relativeSlow_eq (h : l.Answers sci) (hd : l.Of d) {k : Nat}
    (hk : k ≤ l.characters.length) (n : TecoInt) :
    relativeSlow sci d (l.position k) n =
      if 0 ≤ k + n.toInt ∧ k + n.toInt ≤ l.characters.length then
        (l.position (k + n.toInt).toNat : Int)
      else -1 := by
  have hsize : l.characters.length < 2 ^ 63 :=
    Nat.lt_of_le_of_lt length_le_text h.length_lt
  have hoffset := offset_toInt hk hsize n
  unfold relativeSlow
  rw [bytes2glyphs_eq h hd hk, glyphs2bytes_eq h hd]
  by_cases hin : 0 ≤ k + n.toInt ∧ k + n.toInt ≤ l.characters.length
  · rw [if_pos (hoffset.1.mpr hin), if_pos hin, hoffset.2 hin]
  · rw [if_neg (fun h => hin (hoffset.1.mp h)), if_neg hin]

/-- 0 is not always an error. -/
theorem relativeFast_eq (h : l.Answers sci) (hd : l.Of d) {k : Nat}
    (hk : k ≤ l.characters.length) (n : TecoInt) :
    relativeFast sci d (l.position k) n =
      if 0 ≤ k + n.toInt ∧ k + n.toInt ≤ l.characters.length then
        (l.position (k + n.toInt).toNat : Int)
      else -1 := by
  unfold relativeFast
  dsimp only
  rw [hd.text, h.positionRelative k hk, bytes2glyphs_eq h hd hk]
  by_cases hin : 0 ≤ k + n.toInt ∧ k + n.toInt ≤ l.characters.length
  · rw [if_pos hin]
    by_cases hzero : k + n.toInt = 0
    · rw [hzero, if_neg (fun hne => hne rfl), if_neg (by omega),
        if_pos (by decide)]
      rfl
    · have hpos := @position_pos l (k + n.toInt).toNat (by omega) (by omega)
      rw [if_pos (Nat.pos_iff_ne_zero.mp hpos), if_pos hin]
  · rw [if_neg hin, if_neg (by decide), if_neg hin]
    by_cases hn : 0 < n.toInt
    · rw [if_pos hn]
    · rw [if_neg hn, if_neg (by omega)]

/-- The ways to convert positions agree, and glyphs are positions up to the
number of characters. -/
theorem conversions_agree (h : l.Answers sci) (hd : l.Of d) :
    (forall k, k ≤ l.characters.length -> forall n : TecoInt,
      relativeFast sci d (l.position k) n =
          relativeSlow sci d (l.position k) n ∧
        sci.glyphs2bytesRelative d (l.position k) n =
          relativeSlow sci d (l.position k) n) ∧
    forall pos : TecoInt,
      if 0 ≤ pos.toInt ∧ pos.toInt ≤ l.characters.length then
        exists byte : Nat, sci.glyphs2bytes d pos = byte ∧
          sci.bytes2glyphs d byte = pos.toInt
      else sci.glyphs2bytes d pos = -1 := by
  constructor
  · intro k hk n
    have hfast : relativeFast sci d (l.position k) n =
        relativeSlow sci d (l.position k) n :=
      (relativeFast_eq h hd hk n).trans (relativeSlow_eq h hd hk n).symm
    refine ⟨hfast, ?_⟩
    rw [glyphs2bytesRelative_def, hfast, ite_self]
    split
    · next hzero =>
        rw [relativeSlow_eq h hd hk, hzero, Int.add_zero, Int.toNat_natCast,
          if_pos ⟨Int.natCast_nonneg k, Int.ofNat_le.mpr hk⟩]
    · rfl
  · intro pos
    have hglyphs := glyphs2bytes_eq h hd pos
    split
    · next hin =>
        rw [if_pos hin] at hglyphs
        refine ⟨_, hglyphs, ?_⟩
        rw [bytes2glyphs_eq h hd (by omega)]
        omega
    · next hout =>
        rw [if_neg hout] at hglyphs
        exact hglyphs

/-!
## A Scintilla for one text
-/

/-- The character at a position. -/
def indexAt (l : Layout) (pos : Nat) : Nat :=
  Nat.findGreatest (fun k => l.position k ≤ pos) l.characters.length

theorem indexAt_position {k : Nat} (hk : k ≤ l.characters.length) :
    l.indexAt (l.position k) = k := by
  have hle : k ≤ l.indexAt (l.position k) :=
    Nat.le_findGreatest hk (Nat.le_refl _)
  have hspec : l.position (l.indexAt (l.position k)) ≤ l.position k :=
    Nat.findGreatest_spec (P := fun i => l.position i ≤ l.position k) hk
      (Nat.le_refl _)
  exact Nat.le_antisymm
    (le_of_position_le (Nat.findGreatest_le _) hspec) hle

theorem position_le_text {k : Nat} (hk : k ≤ l.characters.length) :
    l.position k ≤ l.text.length := by
  rw [<- position_length]
  rcases Nat.lt_or_eq_of_le hk with hlt | heq
  · exact Nat.le_of_lt (position_lt hlt (Nat.le_refl _))
  · rw [heq]

/-- The documented answers about the text of a layout. -/
def scintilla (l : Layout) : Scintilla :=
  { lineCount := fun _ => l.lines.length
    lineFromPosition := fun _ pos => l.lineAt l.linePosition pos
    positionFromLine := fun text line =>
      if text = l.text then l.linePosition line.toNat else 0
    lineFromIndexPosition := fun _ k => l.lineAt l.lineIndex k.toNat
    indexPositionFromLine := fun _ line => l.lineIndex line.toNat
    countCharacters := fun _ start stop =>
      l.indexAt stop - l.indexAt start.toNat
    positionRelative := fun text pos n =>
      if text = l.text ∧ 0 ≤ l.indexAt pos.toNat + n ∧
          l.indexAt pos.toNat + n ≤ l.characters.length then
        l.position (l.indexAt pos.toNat + n).toNat
      else 0
    positionFromLine_inside := by
      intro text line _ _
      split
      · next htext =>
          rw [htext, linePosition_eq]
          exact ⟨Int.natCast_nonneg _,
            Int.ofNat_le.mpr (position_le_text (lineIndex_le _))⟩
      · exact ⟨Int.le_refl 0, Int.natCast_nonneg _⟩
    positionRelative_le := by
      intro text pos n
      split
      · next hin =>
          rw [hin.1]
          exact position_le_text (by omega)
      · exact Nat.zero_le _ }

theorem scintilla_answers (h : l.text.length < 2 ^ 63) :
    l.Answers l.scintilla := by
  constructor
  case length_lt => exact h
  case lineFromPosition => exact fun k _ => rfl
  case positionFromLine => exact fun line _ => if_pos rfl
  case lineFromIndexPosition => exact fun k => rfl
  case indexPositionFromLine => exact fun line _ => rfl
  case countCharacters =>
    intro i k hik hk
    change l.indexAt (l.position k) - l.indexAt (l.position i) = k - i
    rw [indexAt_position hk, indexAt_position (Nat.le_trans hik hk)]
  case positionRelative =>
    intro k hk n
    change (if l.text = l.text ∧ 0 ≤ (l.indexAt (l.position k) : Int) + n ∧
      (l.indexAt (l.position k) : Int) + n ≤ l.characters.length then
        l.position ((l.indexAt (l.position k) : Int) + n).toNat
      else 0) = _
    rw [indexAt_position hk]
    simp only [true_and]

/-- A letter of two bytes and a line end, and a letter on the next line. -/
def twoLines : Layout where
  lines := [[[0xC3, 0xA4], [0x0A]], [[0x62]]]
  lines_ne := List.cons_ne_nil _ _
  character_ne := by decide

theorem conversions_agree_twoLines :
    twoLines.scintilla.glyphs2bytesRelative
        (Document.create twoLines.text true) 3 (-2) =
      relativeSlow twoLines.scintilla
        (Document.create twoLines.text true) 3 (-2) :=
  ((conversions_agree (scintilla_answers (by decide))
    ⟨rfl, fun h => by cases h⟩).1 2 (by decide) (-2)).2

end Layout

end Editing
end SciTECO
