import SciTECO.Editing.Editor

/-!
# Positions and glyphs

Positions are in bytes, while the arguments of commands count glyphs.  The
conversions of `view.c` ask Scintilla for lines and characters.
-/

namespace SciTECO
namespace Editing

/-- The answers of Scintilla about a text.  The line starts and the relative
positions are in the text. -/
structure Scintilla where
  lineCount : Bytes -> Nat
  lineFromPosition : Bytes -> Nat -> Nat
  positionFromLine : Bytes -> Int -> Int
  lineFromIndexPosition : Bytes -> Int -> Int
  indexPositionFromLine : Bytes -> Int -> Int
  countCharacters : Bytes -> Int -> Nat -> Nat
  positionRelative : Bytes -> Int -> Int -> Nat
  positionFromLine_inside : forall text (line : Int), 0 ≤ line ->
    line < lineCount text ->
      0 ≤ positionFromLine text line ∧
        positionFromLine text line ≤ text.length
  positionRelative_le : forall text pos n,
    positionRelative text pos n ≤ text.length

namespace Scintilla

variable (sci : Scintilla) (d : Document)

/-- The result of `SCI_POSITIONRELATIVE`, where 0 stands for a position outside
the document. -/
def validRelative (pos n : Int) : Int :=
  let res := sci.positionRelative d.text pos n
  if res = 0 then -1 else res

/-- `teco_view_glyphs2bytes()`. -/
def glyphs2bytes (pos : TecoInt) : Int :=
  if pos.toInt < 0 then -1
  else if pos.toInt = 0 then 0
  else if ¬ d.characterIndex then
    if pos.toInt ≤ d.text.length then pos.toInt else -1
  else
    let line := sci.lineFromIndexPosition d.text pos.toInt
    sci.validRelative d (sci.positionFromLine d.text line)
      (pos.toInt - sci.indexPositionFromLine d.text line)

/-- `teco_view_bytes2glyphs()`. -/
def bytes2glyphs (pos : Nat) : Int :=
  if pos = 0 then 0
  else if ¬ d.characterIndex then pos
  else
    let line := sci.lineFromPosition d.text pos
    sci.indexPositionFromLine d.text line +
      sci.countCharacters d.text (sci.positionFromLine d.text line) pos

/-- `TECO_RELATIVE_LIMIT`. -/
def relativeLimit : Int := 1024

/-- `ABS()`, which keeps the least integer. -/
def absInt (n : TecoInt) : TecoInt := if n.slt 0 then -n else n

/-- `teco_view_glyphs2bytes_relative()`. -/
def glyphs2bytesRelative (pos : Nat) (n : TecoInt) : Int :=
  if n.toInt = 0 then pos
  else if relativeLimit < (absInt n).toInt then
    sci.glyphs2bytes d (BitVec.ofInt 64 (sci.bytes2glyphs d pos) + n)
  else
    let res := sci.positionRelative d.text pos n.toInt
    if res ≠ 0 then res
    else if 0 < n.toInt then -1
    else if 0 ≤ sci.bytes2glyphs d pos + n.toInt then 0
    else -1

/-- `teco_validate_line()`. -/
def validateLine (line : TecoInt) : Bool :=
  0 ≤ line.toInt && line.toInt < sci.lineCount d.text

theorem validRelative_le (pos n : Int) :
    sci.validRelative d pos n ≤ d.text.length := by
  have hle := sci.positionRelative_le d.text pos n
  unfold validRelative
  dsimp only
  split
  · omega
  · exact Int.ofNat_le.mpr hle

/-- A valid position is inside the document. -/
theorem glyphs2bytes_le (pos : TecoInt) :
    sci.glyphs2bytes d pos ≤ d.text.length := by
  unfold glyphs2bytes
  dsimp only
  have hlength := Int.natCast_nonneg d.text.length
  split
  · omega
  · split
    · exact hlength
    · split
      · split
        · assumption
        · omega
      · exact sci.validRelative_le d _ _

theorem glyphs2bytesRelative_le {pos : Nat} (h : pos ≤ d.text.length)
    (n : TecoInt) : sci.glyphs2bytesRelative d pos n ≤ d.text.length := by
  have hle := sci.positionRelative_le d.text pos n.toInt
  unfold glyphs2bytesRelative
  dsimp only
  split
  · exact Int.ofNat_le.mpr h
  · split
    · exact sci.glyphs2bytes_le d _
    · split
      · exact Int.ofNat_le.mpr hle
      · split
        · omega
        · split <;> omega

end Scintilla

end Editing
end SciTECO
