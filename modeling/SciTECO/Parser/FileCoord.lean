import SciTECO.Characters

/-!
# Error coordinates in files

An error is reported with its position, line and column.  When a script with a
hash-bang line fails, they are counted behind that line and corrected
afterwards.
-/

namespace SciTECO
namespace Parser

/-- `guint`. -/
abbrev Guint : Type := BitVec 32

/-- `teco_error_pos`, `teco_error_line` and `teco_error_column`. -/
structure Coord where
  pos : Guint
  line : Guint
  column : Guint
deriving DecidableEq, Repr

namespace Coord

def first : Coord := { pos := 0, line := 1, column := 1 }

def newline (c : Coord) : Coord :=
  { pos := c.pos + 1, line := c.line + 1, column := 1 }

def glyph (c : Coord) : Coord :=
  { pos := c.pos + 1, line := c.line, column := c.column + 1 }

/-- Coordinates behind some lines. -/
def shift (c : Coord) (pos line : Guint) : Coord :=
  { pos := c.pos + pos, line := c.line + line, column := c.column }

end Coord

/-- A byte of a null-terminated string. -/
def charAt (str : Bytes) (i : Nat) : UInt8 := str.getD i 0

/-!
## The source functions
-/

/-- The body of the loop of `teco_string_get_coord()` with the step of its
index. -/
def getCoordStep (str : Bytes) (i : Guint) (c : Coord) : Guint × Coord :=
  let chr := charAt str i.toNat
  let last :=
    if chr = '\r'.toUInt8 ∧ charAt str (i + 1).toNat = '\n'.toUInt8 then i + 1
    else i
  (BitVec.ofNat 32 (last.toNat + utf8Skip (charAt str last.toNat)),
    if chr = '\r'.toUInt8 ∨ chr = '\n'.toUInt8 then c.newline else c.glyph)

/-- The loop of `teco_string_get_coord()`.  Its index may overflow, so that it
does not end. -/
def getCoordLoop (str : Bytes) (off : Nat) :
    Nat -> Guint -> Coord -> Option Coord
  | 0, _, _ => none
  | fuel + 1, i, c =>
      if i.toNat < off then
        getCoordLoop str off fuel (getCoordStep str i c).1
          (getCoordStep str i c).2
      else some c

/-- `teco_string_get_coord()`.  Every step goes on at least one byte. -/
def stringGetCoord (str : Bytes) (off : Nat) : Option Coord :=
  getCoordLoop str off (off + 1) 0 Coord.first

/-- `strpbrk()` as an index. -/
def strpbrk (accept : Bytes) : Bytes -> Option Nat
  | [] => none
  | b :: rest =>
      if b = 0 then none
      else if b ∈ accept then some 0
      else (strpbrk accept rest).map (. + 1)

/-- Where a file begins with a hash-bang line. -/
def hashBang (file : Bytes) : Bool := charAt file 0 == '#'.toUInt8

/-- Where the script in a file begins, unless it is empty. -/
def scriptBegin (file : Bytes) : Option Nat :=
  if hashBang file then
    (strpbrk ['\r'.toUInt8, '\n'.toUInt8] file).map (. + 1)
  else some 0

/-- Correct the coordinates for the hash-bang line. -/
def fileCoord (file : Bytes) (p : Nat) (c : Coord) : Coord :=
  { c with
    pos := c.pos + BitVec.ofNat 32 p
    line := if hashBang file then c.line + 1 else c.line }

/-- `teco_execute_file()` with the contents of the file.  `executeMacro` is
`teco_execute_macro()`, of which only the offset of an error counts here. -/
def executeFile (executeMacro : Bytes -> Except Nat Unit) (file : Bytes) :
    Except (Option Coord) Unit :=
  match scriptBegin file with
  | none => .ok ()
  | some p =>
      match executeMacro (file.drop p) with
      | .ok () => .ok ()
      | .error off =>
          .error ((stringGetCoord (file.drop p) off).map (fileCoord file p))

/-!
## Coordinates of characters

The coordinates are counted over the characters in front of the offset.  A line
feed behind a carriage return does not count.
-/

/-- Go over a character.  The flag is set behind a carriage return. -/
def Coord.read (s : Coord × Bool) (chr : Gunichar) : Coord × Bool :=
  if chr = 13 then (s.1.newline, true)
  else if chr = 10 then (if s.2 then s.1 else s.1.newline, false)
  else (s.1.glyph, false)

def Coord.over (s : Coord × Bool) (text : List Gunichar) : Coord × Bool :=
  text.foldl Coord.read s

@[simp] theorem over_nil (s : Coord × Bool) : Coord.over s [] = s := rfl

@[simp] theorem over_cons (s : Coord × Bool) (chr : Gunichar)
    (text : List Gunichar) :
    Coord.over s (chr :: text) = Coord.over (Coord.read s chr) text := rfl

theorem over_append (s : Coord × Bool) (text text' : List Gunichar) :
    Coord.over s (text ++ text') = Coord.over (Coord.over s text) text' :=
  List.foldl_append

/-- The flag only counts at a line feed. -/
theorem over_flag {c : Coord} {flag : Bool} {text : List Gunichar}
    (h : flag = true -> text.head? ≠ some 10) :
    (Coord.over (c, flag) text).1 = (Coord.over (c, false) text).1 := by
  cases text with
  | nil => rfl
  | cons chr text =>
      cases flag with
      | false => rfl
      | true =>
          have hne : chr ≠ 10 := fun heq => h rfl (congrArg some heq)
          have hread : Coord.read (c, true) chr = Coord.read (c, false) chr := by
            unfold Coord.read
            rw [if_neg hne, if_neg hne]
          rw [over_cons, over_cons, hread]

theorem add_swap (x y z : Guint) : x + y + z = x + z + y := by
  rw [BitVec.add_assoc, BitVec.add_comm y z, <- BitVec.add_assoc]

theorem newline_shift (c : Coord) (a b : Guint) :
    (c.shift a b).newline = c.newline.shift a b := by
  unfold Coord.newline Coord.shift
  congr 1
  · exact add_swap _ _ _
  · exact add_swap _ _ _

theorem glyph_shift (c : Coord) (a b : Guint) :
    (c.shift a b).glyph = c.glyph.shift a b := by
  unfold Coord.glyph Coord.shift
  congr 1
  exact add_swap _ _ _

theorem read_shift (c : Coord) (flag : Bool) (a b : Guint) (chr : Gunichar) :
    Coord.read (c.shift a b, flag) chr =
      ((Coord.read (c, flag) chr).1.shift a b,
        (Coord.read (c, flag) chr).2) := by
  unfold Coord.read
  split
  · exact Prod.ext (newline_shift c a b) rfl
  · split
    · cases flag with
      | false => exact Prod.ext (newline_shift c a b) rfl
      | true => rfl
    · exact Prod.ext (glyph_shift c a b) rfl

/-- Coordinates are counted relative to where they begin. -/
theorem over_shift (c : Coord) (flag : Bool) (a b : Guint)
    (text : List Gunichar) :
    (Coord.over (c.shift a b, flag) text).1 =
      (Coord.over (c, flag) text).1.shift a b := by
  induction text generalizing c flag with
  | nil => rfl
  | cons chr text ih =>
      rw [over_cons, over_cons, read_shift, ih]

/-- In a line every character counts. -/
theorem over_line (c : Coord) {text : List Gunichar}
    (h : forall chr, chr ∈ text -> chr ≠ 13 ∧ chr ≠ 10) :
    Coord.over (c, false) text =
      ({ c with
          pos := c.pos + BitVec.ofNat 32 text.length
          column := c.column + BitVec.ofNat 32 text.length }, false) := by
  induction text generalizing c with
  | nil =>
      rw [over_nil, List.length_nil, BitVec.add_zero, BitVec.add_zero]
  | cons chr text ih =>
      have hchr := h chr List.mem_cons_self
      have hread : Coord.read (c, false) chr = (c.glyph, false) := by
        unfold Coord.read
        rw [if_neg hchr.1, if_neg hchr.2]
      have hone : forall x : Guint, x + 1 + BitVec.ofNat 32 text.length =
          x + BitVec.ofNat 32 (chr :: text).length := by
        intro x
        rw [List.length_cons, BitVec.ofNat_add, BitVec.add_assoc]
        congr 1
        exact BitVec.add_comm _ _
      rw [over_cons, hread, ih _ (fun x hx => h x (List.mem_cons_of_mem _ hx))]
      unfold Coord.glyph
      rw [hone, hone]

/-!
## The loop over characters
-/

theorem charAt_append (done after : Bytes) :
    charAt (done ++ after) done.length = charAt after 0 := by
  unfold charAt
  rw [List.getD_eq_getElem?_getD, List.getD_eq_getElem?_getD,
    List.getElem?_append_right (Nat.le_refl _), Nat.sub_self]

theorem charAt_append_succ (done : Bytes) (b : UInt8) (after : Bytes) :
    charAt (done ++ b :: after) (done.length + 1) = charAt after 0 := by
  have happend := charAt_append (done ++ [b]) after
  rw [List.append_assoc, List.length_append] at happend
  exact happend

theorem charAt_zero_append {bytes : Bytes} (h : bytes ≠ []) (after : Bytes) :
    charAt (bytes ++ after) 0 = charAt bytes 0 := by
  cases bytes with
  | nil => exact absurd rfl h
  | cons b bytes => rfl

/-- The first byte of a character is ASCII where the character is. -/
theorem charAt_character {chr : Gunichar} {b : UInt8} (hb : b < 0x80) :
    charAt (unicharToUtf8 chr) 0 = b <-> chr = b.toNat := by
  by_cases hchr : chr < 0x80
  · rw [unicharToUtf8_ascii hchr]
    change UInt8.ofNat chr = b <-> _
    constructor
    · intro h
      rw [<- h, UInt8.toNat_ofNat_of_lt' (Nat.lt_trans hchr (by decide))]
    · intro h
      rw [h, UInt8.ofNat_toNat]
  · constructor
    · intro h
      rcases List.exists_cons_of_ne_nil (unicharToUtf8_ne_nil chr) with
        ⟨c, tail, heq⟩
      have hhigh := unicharToUtf8_high hchr (heq ▸ List.mem_cons_self)
      rw [heq] at h
      have hcb : c = b := h
      exact absurd (hcb ▸ hb) hhigh
    · intro h
      exact absurd (h ▸ hb) hchr

theorem toNat_index {i : Nat} (h : i < 2 ^ 32) :
    (BitVec.ofNat 32 i).toNat = i := by
  rw [BitVec.toNat_ofNat]
  exact Nat.mod_eq_of_lt h

/-- A step over a carriage return with its line feed. -/
theorem getCoordStep_crlf (done after : Bytes) (c : Coord)
    (h : done.length + 1 < 2 ^ 32) :
    getCoordStep (done ++ 13 :: 10 :: after) (BitVec.ofNat 32 done.length) c =
      (BitVec.ofNat 32 (done.length + 2), c.newline) := by
  have hi : (BitVec.ofNat 32 done.length).toNat = done.length :=
    toNat_index (Nat.lt_of_succ_lt h)
  have hnext : (BitVec.ofNat 32 done.length + 1).toNat = done.length + 1 := by
    rw [BitVec.toNat_add, hi]
    exact Nat.mod_eq_of_lt h
  have hcr : charAt (done ++ 13 :: 10 :: after) done.length = '\r'.toUInt8 :=
    charAt_append done _
  have hlf : charAt (done ++ 13 :: 10 :: after) (done.length + 1) =
      '\n'.toUInt8 :=
    charAt_append_succ done 13 _
  unfold getCoordStep
  dsimp only
  rw [hi, hnext, hcr, hlf, if_pos ⟨rfl, rfl⟩, if_pos (.inl rfl), hnext, hlf]
  rfl

/-- A step over any other character. -/
theorem getCoordStep_character {chr : Gunichar} (done after : Bytes) (c : Coord)
    (hchr : unicharValidate chr = true)
    (h : done.length + (unicharToUtf8 chr).length < 2 ^ 32)
    (hcrlf : chr = 13 -> charAt after 0 = 10 -> False) :
    getCoordStep (done ++ (unicharToUtf8 chr ++ after))
        (BitVec.ofNat 32 done.length) c =
      (BitVec.ofNat 32 (done.length + (unicharToUtf8 chr).length),
        (Coord.read (c, false) chr).1) := by
  have hi : (BitVec.ofNat 32 done.length).toNat = done.length :=
    toNat_index (Nat.lt_of_le_of_lt (Nat.le_add_right _ _) h)
  rcases unicharToUtf8_readsAs (lt_of_unicharValidate hchr) with
    ⟨b, tail, heq, hread⟩
  have hb : charAt (done ++ (unicharToUtf8 chr ++ after)) done.length = b := by
    rw [heq]
    exact charAt_append done _
  have hcr : b = '\r'.toUInt8 <-> chr = 13 := by
    have hfirst := @charAt_character chr '\r'.toUInt8 (by decide)
    rw [heq] at hfirst
    exact hfirst
  have hlf : b = '\n'.toUInt8 <-> chr = 10 := by
    have hfirst := @charAt_character chr '\n'.toUInt8 (by decide)
    rw [heq] at hfirst
    exact hfirst
  have hlast : ¬ (b = '\r'.toUInt8 ∧
      charAt (done ++ (unicharToUtf8 chr ++ after))
        (BitVec.ofNat 32 done.length + 1).toNat = '\n'.toUInt8) := by
    rintro ⟨hb13, hnext⟩
    have hchr13 := hcr.mp hb13
    have hbyte : unicharToUtf8 chr = [13] := by
      rw [hchr13]
      rfl
    rw [hbyte] at hnext h
    have hone : (BitVec.ofNat 32 done.length + 1).toNat = done.length + 1 := by
      rw [BitVec.toNat_add, hi]
      exact Nat.mod_eq_of_lt h
    rw [hone] at hnext
    exact hcrlf hchr13 ((charAt_append_succ done 13 after).symm.trans hnext)
  unfold getCoordStep
  dsimp only
  rw [hi, hb, if_neg hlast, hi, hb, hread.skip, heq]
  congr 1
  unfold Coord.read
  by_cases hchr13 : chr = 13
  · rw [if_pos (.inl (hcr.mpr hchr13)), if_pos hchr13]
  · rw [if_neg hchr13]
    by_cases hchr10 : chr = 10
    · rw [if_pos (.inr (hlf.mpr hchr10)), if_pos hchr10]
      rfl
    · rw [if_neg hchr10, if_neg]
      rintro (hb13 | hb10)
      · exact hchr13 (hcr.mp hb13)
      · exact hchr10 (hlf.mp hb10)

/-- The index does not overflow in front of the offset.  Between a carriage
return and its line feed it goes on to the next byte. -/
def InRange (str : Bytes) (off : Nat) : Prop :=
  off < 2 ^ 32 ∧ ¬ (off + 1 = 2 ^ 32 ∧
    charAt str (off - 1) = '\r'.toUInt8 ∧ charAt str off = '\n'.toUInt8)

theorem getCoordLoop_next {str : Bytes} {off fuel : Nat} {i i' : Guint}
    {c c' : Coord} (h : i.toNat < off)
    (hstep : getCoordStep str i c = (i', c')) :
    getCoordLoop str off (fuel + 1) i c = getCoordLoop str off fuel i' c' := by
  rw [getCoordLoop, if_pos h, hstep]

theorem getCoordLoop_end {str : Bytes} {off fuel : Nat} {i : Guint} {c : Coord}
    (h : off ≤ i.toNat) :
    getCoordLoop str off (fuel + 1) i c = some c := by
  rw [getCoordLoop, if_neg (Nat.not_lt.mpr h)]

theorem read_flag {c : Coord} {chr : Gunichar}
    (h : (Coord.read (c, false) chr).2 = true) : chr = 13 := by
  unfold Coord.read at h
  split at h
  · next heq => exact heq
  · split at h
    · cases h
    · cases h

theorem encoded_lf (text : List Gunichar) :
    encoded (10 :: text) = 10 :: encoded text := rfl

theorem charAt_encoded {text : List Gunichar} {b : UInt8} (hb : b < 0x80)
    (hne : text ≠ []) (after : Bytes) :
    charAt (encoded text ++ after) 0 = b <-> text.head? = some b.toNat := by
  cases text with
  | nil => exact absurd rfl hne
  | cons chr text =>
      rw [encoded_cons, List.append_assoc,
        charAt_zero_append (unicharToUtf8_ne_nil chr), charAt_character hb]
      exact ⟨congrArg some, Option.some.inj⟩

theorem cons_of_charAt {str : Bytes} {b : UInt8} (h : charAt str 0 = b)
    (hb : b ≠ 0) : exists rest, str = b :: rest := by
  cases str with
  | nil => exact absurd h.symm hb
  | cons b' rest =>
      have hbb : b' = b := h
      exact ⟨rest, congrArg (. :: rest) hbb⟩

theorem next_of_inRange {str done after : Bytes} {off : Nat}
    (hrange : InRange str off) (hstr : str = done ++ 13 :: 10 :: after)
    (hoff : off = done.length + 1) : done.length + 2 < 2 ^ 32 := by
  have hcr : charAt str (off - 1) = '\r'.toUInt8 := by
    rw [hstr, hoff, Nat.add_sub_cancel]
    exact charAt_append done _
  have hlf : charAt str off = '\n'.toUInt8 := by
    rw [hstr, hoff]
    exact charAt_append_succ done 13 _
  have hne : off + 1 ≠ 2 ^ 32 := fun h => hrange.2 ⟨h, hcr, hlf⟩
  have hlt := hrange.1
  omega

/-- The loop goes over the characters in front of the offset. -/
theorem getCoordLoop_text {str after : Bytes} {off : Nat}
    (hrange : InRange str off) (fuel : Nat) :
    forall (pre : List Gunichar) (done : Bytes) (c : Coord), ValidText pre ->
      str = done ++ (encoded pre ++ after) ->
      off = done.length + (encoded pre).length -> pre.length < fuel ->
      getCoordLoop str off fuel (BitVec.ofNat 32 done.length) c =
        some (Coord.over (c, false) pre).1 := by
  induction fuel with
  | zero =>
      intro pre done c _ _ _ hfuel
      exact absurd hfuel (Nat.not_lt_zero _)
  | succ fuel ih =>
      intro pre done c hpre hstr hoff hfuel
      have hdone : done.length < 2 ^ 32 :=
        Nat.lt_of_le_of_lt (hoff ▸ Nat.le_add_right _ _) hrange.1
      have hindex := toNat_index hdone
      cases pre with
      | nil =>
          exact getCoordLoop_end (by rw [hindex, hoff]; exact Nat.le_refl _)
      | cons chr pre =>
          have hchr := hpre chr List.mem_cons_self
          have hrest : ValidText pre := fun x hx =>
            hpre x (List.mem_cons_of_mem _ hx)
          have hlength := hoff
          rw [encoded_cons, List.length_append] at hlength
          rw [encoded_cons, List.append_assoc] at hstr
          have hpos := List.length_pos_iff.mpr (unicharToUtf8_ne_nil chr)
          have hlt : (BitVec.ofNat 32 done.length).toNat < off := by
            omega
          have hfuel' : pre.length < fuel := Nat.lt_of_succ_lt_succ hfuel
          by_cases hcrlf : chr = 13 ∧ charAt (encoded pre ++ after) 0 = 10
          · rcases hcrlf with ⟨rfl, hlf⟩
            have hbyte : unicharToUtf8 13 = [13] := rfl
            rw [hbyte, <- Nat.add_assoc, List.length_singleton] at hlength
            rw [hbyte] at hstr
            have hover : Coord.over (c, false) (13 :: pre) =
                Coord.over (c.newline, true) pre := rfl
            cases pre with
            | nil =>
                rcases cons_of_charAt hlf (by decide) with ⟨after', hafter⟩
                have hstr' : str = done ++ 13 :: 10 :: after' :=
                  hstr.trans (congrArg (fun rest => done ++ 13 :: rest) hafter)
                have hnext := next_of_inRange hrange hstr' hlength
                have hstep := getCoordStep_crlf done after' c
                  (Nat.lt_of_succ_lt hnext)
                rw [<- hstr'] at hstep
                cases fuel with
                | zero => cases hfuel'
                | succ fuel =>
                    rw [getCoordLoop_next hlt hstep]
                    refine getCoordLoop_end ?_
                    rw [toNat_index hnext, hlength]
                    exact Nat.le_succ _
            | cons next pre =>
                have hne : next :: pre ≠ [] := List.cons_ne_nil _ _
                have hhead := (charAt_encoded (by decide) hne after).mp hlf
                have hnext : next = 10 := Option.some.inj hhead
                subst hnext
                have hstep := getCoordStep_crlf done (encoded pre ++ after) c
                  (by have hoff32 := hrange.1; omega)
                have hstr' : str = done ++ 13 :: 10 :: (encoded pre ++ after) :=
                  hstr
                rw [<- hstr'] at hstep
                have hlength' : off = (done ++ [13, 10]).length +
                    (encoded pre).length := by
                  rw [hlength, encoded_lf, List.length_cons, List.length_append,
                    Nat.add_assoc done.length, Nat.add_assoc done.length,
                    Nat.add_comm _ 1, <- Nat.add_assoc 1]
                  rfl
                have hrun := ih pre (done ++ [13, 10]) c.newline
                  (fun x hx => hrest x (List.mem_cons_of_mem _ hx))
                  (by rw [hstr', List.append_assoc]; rfl) hlength'
                  (Nat.lt_of_succ_lt hfuel')
                rw [List.length_append] at hrun
                rw [getCoordLoop_next hlt hstep]
                exact hrun
          · have hend : done.length + (unicharToUtf8 chr).length < 2 ^ 32 := by
              have hoff32 := hrange.1
              omega
            have hstep := getCoordStep_character done (encoded pre ++ after) c
              hchr hend (fun h h' => hcrlf ⟨h, h'⟩)
            rw [<- hstr, <- List.length_append] at hstep
            rw [getCoordLoop_next hlt hstep,
              ih pre (done ++ unicharToUtf8 chr) _ hrest
                (by rw [hstr, List.append_assoc])
                (by rw [List.length_append, hlength, Nat.add_assoc]) hfuel',
              over_cons]
            refine congrArg some (over_flag ?_).symm
            intro hflag hhead
            have hne : pre ≠ [] := by
              intro hnil
              rw [hnil] at hhead
              cases hhead
            exact hcrlf ⟨read_flag hflag,
              (charAt_encoded (by decide) hne after).mpr hhead⟩

theorem length_le_encoded (text : List Gunichar) :
    text.length ≤ (encoded text).length := by
  induction text with
  | nil => exact Nat.le_refl _
  | cons chr text ih =>
      have hpos := List.length_pos_iff.mpr (unicharToUtf8_ne_nil chr)
      rw [encoded_cons, List.length_append, List.length_cons]
      omega

/-- The coordinates of an offset between characters. -/
theorem stringGetCoord_eq {pre : List Gunichar} {after : Bytes}
    (hpre : ValidText pre)
    (hrange : InRange (encoded pre ++ after) (encoded pre).length) :
    stringGetCoord (encoded pre ++ after) (encoded pre).length =
      some (Coord.over (Coord.first, false) pre).1 :=
  getCoordLoop_text hrange _ pre [] Coord.first hpre rfl
    (Nat.zero_add _).symm (Nat.lt_succ_of_le (length_le_encoded pre))

/-- The loop does not end behind all indices. -/
theorem getCoordLoop_beyond {str : Bytes} {off : Nat} (h : 2 ^ 32 ≤ off)
    (fuel : Nat) (i : Guint) (c : Coord) :
    getCoordLoop str off fuel i c = none := by
  induction fuel generalizing i c with
  | zero => rfl
  | succ fuel ih =>
      have hlt : i.toNat < off := Nat.lt_of_lt_of_le i.isLt h
      rw [getCoordLoop, if_pos hlt]
      exact ih _ _

/-- It begins again when the index overflows at a line feed. -/
theorem getCoordLoop_again {str after : Bytes} {pre : List Gunichar}
    (hpre : ValidText pre) (hstr : str = encoded pre ++ 13 :: 10 :: after)
    (hoff : (encoded pre).length + 2 = 2 ^ 32) (fuel : Nat) :
    forall (left right : List Gunichar) (c : Coord), left ++ right = pre ->
      getCoordLoop str ((encoded pre).length + 1) fuel
        (BitVec.ofNat 32 (encoded left).length) c = none := by
  induction fuel with
  | zero => exact fun _ _ _ _ => rfl
  | succ fuel ih =>
      intro left right c hsplit
      have hlength : (encoded left).length + (encoded right).length =
          (encoded pre).length := by
        rw [<- List.length_append, <- encoded_append, hsplit]
      have hrest : str =
          encoded left ++ (encoded right ++ 13 :: 10 :: after) := by
        rw [hstr, <- hsplit, encoded_append, List.append_assoc]
      have hlt : (BitVec.ofNat 32 (encoded left).length).toNat <
          (encoded pre).length + 1 := by
        rw [toNat_index (by omega)]
        omega
      cases right with
      | nil =>
          have hstep := getCoordStep_crlf (encoded left) after c (by omega)
          have hall : (encoded left).length + 2 = 2 ^ 32 := by
            rw [<- hoff, <- hlength]
            rfl
          have hrest' : str = encoded left ++ 13 :: 10 :: after := hrest
          rw [<- hrest', hall] at hstep
          rw [getCoordLoop_next hlt hstep]
          exact ih [] pre _ rfl
      | cons chr right =>
          rw [encoded_cons, List.append_assoc] at hrest
          rw [encoded_cons, List.length_append] at hlength
          have hchr := hpre chr
            (hsplit ▸ List.mem_append_right _ List.mem_cons_self)
          by_cases hcrlf : chr = 13 ∧
              charAt (encoded right ++ 13 :: 10 :: after) 0 = 10
          · rcases hcrlf with ⟨rfl, hlf⟩
            have hne : right ≠ [] := by
              intro hnil
              rw [hnil] at hlf
              have hcr : (13 : UInt8) = 10 := hlf
              exact absurd hcr (by decide)
            rcases List.exists_cons_of_ne_nil hne with ⟨next, rest, rfl⟩
            have hhead := (charAt_encoded (by decide) hne _).mp hlf
            have hnext : next = 10 := Option.some.inj hhead
            subst hnext
            have hstep := getCoordStep_crlf (encoded left)
              (encoded rest ++ 13 :: 10 :: after) c (by omega)
            have hrest' : str = encoded left ++
                13 :: 10 :: (encoded rest ++ 13 :: 10 :: after) := hrest
            rw [<- hrest'] at hstep
            have hrun := ih (left ++ [13, 10]) rest c.newline
              (by rw [List.append_assoc]; exact hsplit)
            rw [encoded_append, List.length_append] at hrun
            rw [getCoordLoop_next hlt hstep]
            exact hrun
          · have hstep := getCoordStep_character (encoded left)
              (encoded right ++ 13 :: 10 :: after) c hchr (by omega)
              (fun h h' => hcrlf ⟨h, h'⟩)
            rw [<- hrest] at hstep
            have hrun := ih (left ++ [chr]) right (Coord.read (c, false) chr).1
              (by rw [List.append_assoc]; exact hsplit)
            rw [encoded_append, encoded_cons, encoded_nil, List.append_nil,
              List.length_append] at hrun
            rw [getCoordLoop_next hlt hstep]
            exact hrun

theorem last_cr {pre : List Gunichar} {after : Bytes}
    (hcr : charAt (encoded pre ++ after) ((encoded pre).length - 1) = 13)
    (hne : pre ≠ []) : exists left, pre = left ++ [13] := by
  rcases List.eq_nil_or_concat pre with hnil | ⟨left, chr, hpre⟩
  · exact absurd hnil hne
  · rw [List.concat_eq_append] at hpre
    refine ⟨left, hpre.trans (congrArg (fun x => left ++ [x]) ?_)⟩
    rcases List.eq_nil_or_concat (unicharToUtf8 chr) with hnil | ⟨head, b, hb⟩
    · exact absurd hnil (unicharToUtf8_ne_nil chr)
    · rw [List.concat_eq_append] at hb
      have hbytes : encoded pre = encoded left ++ head ++ [b] := by
        rw [hpre, encoded_append, encoded_cons, encoded_nil, List.append_nil,
          hb, List.append_assoc]
      rw [hbytes, List.length_append, List.length_singleton,
        Nat.add_sub_cancel, List.append_assoc, charAt_append] at hcr
      have hb13 : b = 13 := hcr
      by_cases hchr : chr < 0x80
      · rw [unicharToUtf8_ascii hchr] at hb
        have hhead : head = [] := by
          have hlength := congrArg List.length hb
          rw [List.length_append] at hlength
          exact List.length_eq_zero_iff.mp (Nat.succ.inj hlength).symm
        rw [hhead, hb13] at hb
        have hbyte : UInt8.ofNat chr = 13 := (List.cons.inj hb).1
        have hnat := congrArg UInt8.toNat hbyte
        rw [UInt8.toNat_ofNat_of_lt' (Nat.lt_trans hchr (by decide))] at hnat
        exact hnat
      · have hhigh := unicharToUtf8_high hchr
          (hb ▸ List.mem_append_right head List.mem_cons_self)
        rw [hb13] at hhigh
        exact absurd (by decide) hhigh

theorem stringGetCoord_none {pre : List Gunichar} {after : Bytes}
    (hpre : ValidText pre)
    (h : ¬ InRange (encoded pre ++ after) (encoded pre).length) :
    stringGetCoord (encoded pre ++ after) (encoded pre).length = none := by
  by_cases hoff : 2 ^ 32 ≤ (encoded pre).length
  · exact getCoordLoop_beyond hoff _ _ _
  · have hedge : (encoded pre).length + 1 = 2 ^ 32 ∧
        charAt (encoded pre ++ after) ((encoded pre).length - 1) =
          '\r'.toUInt8 ∧
        charAt (encoded pre ++ after) (encoded pre).length = '\n'.toUInt8 := by
      refine Decidable.byContradiction fun hno => h ⟨Nat.not_le.mp hoff, hno⟩
    rcases hedge with ⟨hall, hcr, hlf⟩
    have hne : pre ≠ [] := by
      intro hnil
      rw [hnil] at hall
      exact absurd hall (by decide)
    rcases last_cr hcr hne with ⟨left, rfl⟩
    rw [charAt_append] at hlf
    rcases cons_of_charAt hlf (by decide) with ⟨rest, rfl⟩
    have hbytes : encoded (left ++ [13]) = encoded left ++ [13] :=
      encoded_append _ _
    rw [hbytes, List.length_append] at hall ⊢
    have hagain := getCoordLoop_again
      (fun x hx => hpre x (List.mem_append_left _ hx))
      (by rw [List.append_assoc]; rfl : encoded left ++ [13] ++
        '\n'.toUInt8 :: rest = encoded left ++ 13 :: 10 :: rest) hall
    exact hagain _ [] left Coord.first rfl

/-!
## The hash-bang line
-/

theorem ascii_of_all {bytes : Bytes}
    (h : bytes.all (fun b => decide (b < 0x80)) = true) :
    forall b, b ∈ bytes -> b < 0x80 := by
  intro b hb
  have hascii := List.all_eq_true.mp h b hb
  exact of_decide_eq_true hascii

theorem strpbrk_high {accept bytes : Bytes}
    (hbytes : forall b, b ∈ bytes -> ¬ b < 0x80)
    (haccept : forall b, b ∈ accept -> b < 0x80) (rest : Bytes) :
    strpbrk accept (bytes ++ rest) =
      (strpbrk accept rest).map (. + bytes.length) := by
  induction bytes with
  | nil =>
      change _ = (strpbrk accept rest).map id
      rw [Option.map_id]
      rfl
  | cons b bytes ih =>
      have hb := hbytes b List.mem_cons_self
      have hzero : b ≠ 0 := by
        intro hzero
        rw [hzero] at hb
        exact absurd (by decide) hb
      rw [List.cons_append, strpbrk, if_neg hzero,
        if_neg (fun hmem => hb (haccept b hmem)),
        ih (fun x hx => hbytes x (List.mem_cons_of_mem b hx)), Option.map_map]
      rfl

/-- `strpbrk()` finds the end of the first line. -/
theorem strpbrk_encoded {text : List Gunichar} {k : Nat}
    (h : strpbrk ['\r'.toUInt8, '\n'.toUInt8] (encoded text) = some k) :
    exists line x rest, text = line ++ x :: rest ∧ (x = 13 ∨ x = 10) ∧
      (forall chr, chr ∈ line -> chr ≠ 13 ∧ chr ≠ 10) ∧
      k = (encoded line).length := by
  induction text generalizing k with
  | nil => cases h
  | cons chr text ih =>
      rw [encoded_cons] at h
      have hcons : forall {k' : Nat},
          strpbrk ['\r'.toUInt8, '\n'.toUInt8] (encoded text) = some k' ->
          k' + (unicharToUtf8 chr).length = k -> chr ≠ 13 ∧ chr ≠ 10 ->
          exists line x rest, chr :: text = line ++ x :: rest ∧
            (x = 13 ∨ x = 10) ∧
            (forall chr, chr ∈ line -> chr ≠ 13 ∧ chr ≠ 10) ∧
            k = (encoded line).length := by
        intro k' hk' hk hchr
        rcases ih hk' with ⟨line, x, rest, htext, hx, hline, hlength⟩
        refine ⟨chr :: line, x, rest, congrArg (chr :: .) htext, hx, ?_, ?_⟩
        · intro y hy
          rcases List.mem_cons.mp hy with rfl | hy
          · exact hchr
          · exact hline y hy
        · rw [encoded_cons, List.length_append, <- hlength, Nat.add_comm]
          exact hk.symm
      by_cases hchr : chr < 0x80
      · have hnat : (UInt8.ofNat chr).toNat = chr :=
          UInt8.toNat_ofNat_of_lt' (Nat.lt_trans hchr (by decide))
        have hlength : (unicharToUtf8 chr).length = 1 := by
          rw [unicharToUtf8_ascii hchr]
          rfl
        rw [unicharToUtf8_ascii hchr, List.singleton_append, strpbrk] at h
        split at h
        · cases h
        split at h
        · next hmem =>
            have hk : 0 = k := Option.some.inj h
            refine ⟨[], chr, text, rfl, ?_, ?_, hk.symm⟩
            · rcases List.mem_cons.mp hmem with hcr | hmem
              · rw [hcr] at hnat
                exact .inl hnat.symm
              · rw [List.mem_singleton.mp hmem] at hnat
                exact .inr hnat.symm
            · exact fun _ hx => absurd hx List.not_mem_nil
        · next hmem =>
            cases hrest : strpbrk ['\r'.toUInt8, '\n'.toUInt8]
                (encoded text) with
            | none =>
                rw [hrest] at h
                cases h
            | some k' =>
                rw [hrest] at h
                refine hcons hrest ?_ ⟨?_, ?_⟩
                · rw [hlength]
                  exact Option.some.inj h
                · intro hcr
                  refine hmem ?_
                  rw [hcr]
                  exact List.mem_cons_self
                · intro hlf
                  refine hmem ?_
                  rw [hlf]
                  exact List.mem_cons_of_mem _ List.mem_cons_self
      · rw [strpbrk_high (fun b hb => unicharToUtf8_high hchr hb)
          (ascii_of_all rfl)] at h
        cases hrest : strpbrk ['\r'.toUInt8, '\n'.toUInt8]
            (encoded text) with
        | none =>
            rw [hrest] at h
            cases h
        | some k' =>
            rw [hrest] at h
            refine hcons hrest (Option.some.inj h) ⟨?_, ?_⟩
            · intro hcr
              exact hchr (hcr ▸ by decide)
            · intro hlf
              exact hchr (hlf ▸ by decide)

theorem length_unicharToUtf8_high {chr : Gunichar} (h : ¬ chr < 0x80) :
    1 < (unicharToUtf8 chr).length := by
  unfold unicharToUtf8
  simp only [if_neg h]
  split
  · exact Nat.lt_add_of_pos_left Nat.one_pos
  split
  · exact Nat.lt_add_of_pos_left Nat.two_pos
  split
  · exact Nat.lt_add_of_pos_left (by decide : 0 < 3)
  split
  · exact Nat.lt_add_of_pos_left (by decide : 0 < 4)
  · exact Nat.lt_add_of_pos_left (by decide : 0 < 5)

/-- There are as many bytes as characters in ASCII only. -/
theorem length_encoded_iff {text : List Gunichar} :
    (encoded text).length = text.length <->
      forall b, b ∈ encoded text -> b < 0x80 := by
  induction text with
  | nil =>
      constructor
      · exact fun _ b hb => absurd hb List.not_mem_nil
      · exact fun _ => rfl
  | cons chr text ih =>
      rw [encoded_cons, List.length_append, List.length_cons]
      by_cases hchr : chr < 0x80
      · have hbyte : UInt8.ofNat chr < 0x80 := by
          change (UInt8.ofNat chr).toNat < 0x80
          rw [UInt8.toNat_ofNat_of_lt' (Nat.lt_trans hchr (by decide))]
          exact hchr
        rw [unicharToUtf8_ascii hchr, List.length_singleton,
          List.singleton_append]
        constructor
        · intro h b hb
          rcases List.mem_cons.mp hb with rfl | hb
          · exact hbyte
          · exact ih.mp (by omega) b hb
        · intro h
          have htext := ih.mpr (fun b hb => h b (List.mem_cons_of_mem _ hb))
          omega
      · constructor
        · intro h
          have hlong := length_unicharToUtf8_high hchr
          have htext := length_le_encoded text
          omega
        · intro h
          rcases List.exists_cons_of_ne_nil (unicharToUtf8_ne_nil chr) with
            ⟨b, tail, heq⟩
          have hmem : b ∈ unicharToUtf8 chr := heq ▸ List.mem_cons_self
          exact absurd (h b (List.mem_append_left _ hmem))
            (unicharToUtf8_high hchr hmem)

/-- Offsets between the characters of a text. -/
def IsBoundary (str : Bytes) (off : Nat) : Prop :=
  exists pre post, ValidText (pre ++ post) ∧ str = encoded (pre ++ post) ∧
    off = (encoded pre).length

/-- The hash-bang line is ASCII, and the script does not begin with the line
feed of its line end. -/
def PlainFirstLine (file : Bytes) (p off : Nat) : Prop :=
  hashBang file = true ->
    (forall b, b ∈ file.take p -> b < 0x80) ∧
      ¬ (charAt file (p - 1) = '\r'.toUInt8 ∧
        charAt file p = '\n'.toUInt8 ∧ 0 < off)

/-- Coordinates behind a line are counted from its end. -/
theorem over_behind {line pre : List Gunichar} {x : Gunichar}
    (hx : x = 13 ∨ x = 10)
    (hline : forall chr, chr ∈ line -> chr ≠ 13 ∧ chr ≠ 10) :
    Coord.over (Coord.first, false) (line ++ x :: pre) =
      Coord.over (Coord.first.shift (BitVec.ofNat 32 (line.length + 1)) 1,
        decide (x = 13)) pre := by
  have hread : Coord.over (Coord.over (Coord.first, false) line) [x] =
      (Coord.first.shift (BitVec.ofNat 32 (line.length + 1)) 1,
        decide (x = 13)) := by
    have hpos : (0 : Guint) + BitVec.ofNat 32 line.length + 1 =
        0 + BitVec.ofNat 32 (line.length + 1) := by
      rw [BitVec.ofNat_add, BitVec.add_assoc]
      rfl
    rw [over_line _ hline, over_cons, over_nil]
    unfold Coord.read
    rcases hx with rfl | rfl
    · rw [if_pos rfl]
      exact Prod.ext (congrArg (fun pos => Coord.mk pos 2 1) hpos) rfl
    · exact Prod.ext (congrArg (fun pos => Coord.mk pos 2 1) hpos) rfl
  rw [over_append, over_cons]
  exact congrArg (fun s => Coord.over s pre) hread

theorem shift_pos_inj {c : Coord} {m n : Nat} {line : Guint} (hm : m < 2 ^ 32)
    (hn : n < 2 ^ 32) :
    c.shift (BitVec.ofNat 32 m) line = c.shift (BitVec.ofNat 32 n) line <->
      m = n := by
  constructor
  · intro h
    have hpos : BitVec.ofNat 32 m = BitVec.ofNat 32 n :=
      BitVec.add_right_inj _ |>.mp (congrArg Coord.pos h)
    rw [<- toNat_index hm, <- toNat_index hn, hpos]
  · exact fun h => h ▸ rfl

/-- What is reported behind a hash-bang line is right for characters of the
line which are all ASCII, and for a line feed which is not left behind. -/
theorem reported_iff {line pre : List Gunichar} {x : Gunichar} {p : Nat}
    (hx : x = 13 ∨ x = 10)
    (hline : forall chr, chr ∈ line -> chr ≠ 13 ∧ chr ≠ 10)
    (hp : p = (encoded line).length + 1) (hrange : p < 2 ^ 32) :
    (Coord.over (Coord.first, false) pre).1.shift (BitVec.ofNat 32 p) 1 =
        (Coord.over (Coord.first, false) (line ++ x :: pre)).1 <->
      (encoded line).length = line.length ∧
        ¬ (x = 13 ∧ pre.head? = some 10) := by
  have hcount : line.length + 1 < 2 ^ 32 := by
    have hle := length_le_encoded line
    omega
  rw [over_behind hx hline]
  by_cases hcrlf : x = 13 ∧ pre.head? = some 10
  · rcases hcrlf with ⟨rfl, hhead⟩
    refine ⟨fun h => absurd h ?_, fun h => absurd ⟨rfl, hhead⟩ h.2⟩
    cases pre with
    | nil => cases hhead
    | cons y pre =>
        have hy : y = 10 := Option.some.inj hhead
        subst hy
        have hread : Coord.over (Coord.first, false) (10 :: pre) =
            Coord.over (Coord.first.shift 1 1, false) pre := rfl
        have hread' : Coord.over
            (Coord.first.shift (BitVec.ofNat 32 (line.length + 1)) 1,
              decide ((13 : Gunichar) = 13)) (10 :: pre) =
            Coord.over (Coord.first.shift
              (BitVec.ofNat 32 (line.length + 1)) 1, false) pre := rfl
        rw [hread, hread', over_shift, over_shift]
        intro h
        have hlines : forall n : Guint, n + 1 + 1 ≠ n + 1 := by
          intro n hn
          have hone : (1 : Guint) = 0 :=
            (BitVec.add_right_inj _).mp (hn.trans (BitVec.add_zero _).symm)
          exact absurd hone (by decide)
        exact hlines _ (congrArg Coord.line h)
  · rw [over_flag (fun hflag hhead =>
      hcrlf ⟨of_decide_eq_true hflag, hhead⟩), over_shift,
      shift_pos_inj hrange hcount, hp]
    constructor
    · intro h
      exact ⟨Nat.succ.inj h, hcrlf⟩
    · exact fun h => congrArg Nat.succ h.1

/-- A script behind a hash-bang line. -/
theorem scriptBegin_hashBang {file : Bytes} {p : Nat} (hfile : ValidUtf8 file)
    (hhash : hashBang file = true) (hp : scriptBegin file = some p) :
    exists line x rest, ValidText (line ++ x :: rest) ∧
      file = encoded line ++ (unicharToUtf8 x ++ encoded rest) ∧
      (x = 13 ∨ x = 10) ∧
      (forall chr, chr ∈ line -> chr ≠ 13 ∧ chr ≠ 10) ∧
      p = (encoded line).length + 1 := by
  have htext := encoded_characters hfile
  unfold scriptBegin at hp
  rw [if_pos hhash] at hp
  cases hk : strpbrk ['\r'.toUInt8, '\n'.toUInt8] file with
  | none =>
      rw [hk] at hp
      cases hp
  | some k =>
      rw [hk] at hp
      have hk' := hk
      rw [<- htext.1] at hk'
      rcases strpbrk_encoded hk' with ⟨line, x, rest, heq, hx, hline, hlength⟩
      refine ⟨line, x, rest, heq ▸ htext.2, ?_, hx, hline, ?_⟩
      · rw [<- encoded_cons, <- encoded_append, <- heq, htext.1]
      · rw [<- hlength]
        exact (Option.some.inj hp).symm

/-- The condition in characters. -/
theorem plainFirstLine_iff {file : Bytes} {p off : Nat}
    {line pre : List Gunichar} {x : Gunichar} {after : Bytes}
    (hhash : hashBang file = true) (hx : x = 13 ∨ x = 10)
    (hbegin : p = (encoded line).length + 1)
    (hfile : file = encoded line ++ unicharToUtf8 x ++ (encoded pre ++ after))
    (hoff : off = (encoded pre).length) :
    PlainFirstLine file p off <->
      (encoded line).length = line.length ∧
        ¬ (x = 13 ∧ pre.head? = some 10) := by
  have hbyte : unicharToUtf8 x = [UInt8.ofNat x] := by
    rcases hx with rfl | rfl
    · rfl
    · rfl
  have hascii : UInt8.ofNat x < 0x80 := by
    rcases hx with rfl | rfl
    · decide
    · decide
  have hfirst : (encoded line ++ unicharToUtf8 x).length = p := by
    rw [List.length_append, hbyte, hbegin]
    rfl
  have htake : file.take p = encoded line ++ unicharToUtf8 x := by
    rw [hfile, <- hfirst]
    exact List.take_left
  have hline : (forall b, b ∈ file.take p -> b < 0x80) <->
      (encoded line).length = line.length := by
    rw [htake, hbyte, length_encoded_iff]
    constructor
    · exact fun h b hb => h b (List.mem_append_left _ hb)
    · intro h b hb
      rcases List.mem_append.mp hb with hb | hb
      · exact h b hb
      · rw [List.mem_singleton.mp hb]
        exact hascii
  have hcr : charAt file (p - 1) = '\r'.toUInt8 <-> x = 13 := by
    rw [hfile, hbegin, Nat.add_sub_cancel, List.append_assoc, charAt_append,
      charAt_zero_append (unicharToUtf8_ne_nil x)]
    exact charAt_character (by decide)
  have hlf : charAt file p = '\n'.toUInt8 ∧ 0 < off <->
      pre.head? = some 10 := by
    rw [hfile, <- hfirst, charAt_append, hoff]
    cases pre with
    | nil =>
        refine ⟨fun h => absurd h.2 (Nat.lt_irrefl 0), fun h => ?_⟩
        cases h
    | cons y pre =>
        rw [charAt_encoded (by decide) (List.cons_ne_nil y pre)]
        refine ⟨fun h => h.1, fun h => ⟨h, ?_⟩⟩
        have hle := length_le_encoded (y :: pre)
        exact Nat.lt_of_lt_of_le (Nat.succ_pos _) hle
  unfold PlainFirstLine
  rw [hline, hcr, hlf]
  exact ⟨fun h => h hhash, fun h _ => h⟩

/-- The coordinates in the script, corrected, are those in the file. -/
def CoordAgree (file : Bytes) (p off : Nat) : Prop :=
  exists coord,
    (stringGetCoord (file.drop p) off).map (fileCoord file p) = some coord ∧
      stringGetCoord file (p + off) = some coord

theorem coordAgree_whole {file after : Bytes} {pre : List Gunichar}
    (hhash : hashBang file = false) (hpre : ValidText pre)
    (hfile : file = encoded pre ++ after) :
    CoordAgree file 0 (encoded pre).length <->
      InRange file (0 + (encoded pre).length) := by
  have hcoord : forall c, fileCoord file 0 c = c := by
    intro c
    unfold fileCoord
    rw [hhash]
    exact congrArg (fun pos => Coord.mk pos c.line c.column)
      (BitVec.add_zero c.pos)
  unfold CoordAgree
  rw [List.drop_zero, Nat.zero_add]
  by_cases hrange : InRange file (encoded pre).length
  · have hwhole : stringGetCoord file (encoded pre).length =
        some (Coord.over (Coord.first, false) pre).1 := by
      rw [hfile] at hrange ⊢
      exact stringGetCoord_eq hpre hrange
    rw [hwhole, Option.map_some, hcoord]
    exact ⟨fun _ => hrange, fun _ => ⟨_, rfl, rfl⟩⟩
  · have hwhole : stringGetCoord file (encoded pre).length = none := by
      rw [hfile] at hrange ⊢
      exact stringGetCoord_none hpre hrange
    rw [hwhole]
    refine ⟨?_, fun h => absurd h hrange⟩
    rintro ⟨coord, _, hnone⟩
    cases hnone

/-- Behind a hash-bang line the correction decides. -/
theorem coordAgree_behind {file after : Bytes} {line pre : List Gunichar}
    {x : Gunichar} {p : Nat} (hhash : hashBang file = true)
    (hfront : ValidText (line ++ x :: pre)) (hx : x = 13 ∨ x = 10)
    (hline : forall chr, chr ∈ line -> chr ≠ 13 ∧ chr ≠ 10)
    (hbegin : p = (encoded line).length + 1)
    (hfirst : (encoded line ++ unicharToUtf8 x).length = p)
    (hdrop : file.drop p = encoded pre ++ after)
    (hfile : file = encoded line ++ unicharToUtf8 x ++
      (encoded pre ++ after)) :
    CoordAgree file p (encoded pre).length <->
      InRange file (p + (encoded pre).length) ∧
        (encoded line).length = line.length ∧
          ¬ (x = 13 ∧ pre.head? = some 10) := by
  have hpre : ValidText pre := fun y hy =>
    hfront y (List.mem_append_right _ (List.mem_cons_of_mem _ hy))
  have hwhole : file = encoded (line ++ x :: pre) ++ after := by
    rw [hfile, encoded_append, encoded_cons, List.append_assoc,
      List.append_assoc, List.append_assoc]
  have hlength : p + (encoded pre).length =
      (encoded (line ++ x :: pre)).length := by
    rw [encoded_append, encoded_cons, <- List.append_assoc,
      List.length_append, hfirst]
  unfold CoordAgree
  by_cases hrange : InRange file (p + (encoded pre).length)
  · have hlt := hrange.1
    have hscript : InRange (encoded pre ++ after) (encoded pre).length := by
      constructor
      · omega
      · rintro ⟨hall, _⟩
        omega
    have hcoord : stringGetCoord file (p + (encoded pre).length) =
        some (Coord.over (Coord.first, false) (line ++ x :: pre)).1 := by
      rw [hwhole, hlength] at hrange ⊢
      exact stringGetCoord_eq hfront hrange
    have hreported :
        (stringGetCoord (file.drop p) (encoded pre).length).map
            (fileCoord file p) =
          some ((Coord.over (Coord.first, false) pre).1.shift
            (BitVec.ofNat 32 p) 1) := by
      rw [hdrop, stringGetCoord_eq hpre hscript, Option.map_some]
      unfold fileCoord
      rw [hhash]
      rfl
    have hiff := @reported_iff line pre x p hx hline hbegin
      (Nat.lt_of_le_of_lt (Nat.le_add_right p _) hlt)
    rw [hcoord, hreported, <- hiff]
    constructor
    · rintro ⟨coord, heq, heq'⟩
      exact ⟨hrange, Option.some.inj (heq.trans heq'.symm)⟩
    · intro h
      exact ⟨_, rfl, congrArg some h.2.symm⟩
  · have hcoord : stringGetCoord file (p + (encoded pre).length) = none := by
      rw [hwhole, hlength] at hrange ⊢
      exact stringGetCoord_none hfront hrange
    rw [hcoord]
    refine ⟨?_, fun h => absurd h.1 hrange⟩
    rintro ⟨coord, _, hnone⟩
    cases hnone

theorem executeFile_error {executeMacro : Bytes -> Except Nat Unit}
    {file : Bytes} {p off : Nat} (hp : scriptBegin file = some p)
    (hfail : executeMacro (file.drop p) = .error off) :
    executeFile executeMacro file =
      .error ((stringGetCoord (file.drop p) off).map (fileCoord file p)) := by
  unfold executeFile
  rw [hp]
  dsimp only
  rw [hfail]

/-- The position, line and column of an error in a script are those of the
file if and only if the hash-bang line is plain. -/
theorem executeFile_coord_iff {executeMacro : Bytes -> Except Nat Unit}
    {file : Bytes} {p off : Nat} (hfile : ValidUtf8 file)
    (hp : scriptBegin file = some p)
    (hfail : executeMacro (file.drop p) = .error off)
    (hoff : IsBoundary (file.drop p) off) :
    (exists coord, executeFile executeMacro file = .error (some coord) ∧
        stringGetCoord file (p + off) = some coord) <->
      InRange file (p + off) ∧ PlainFirstLine file p off := by
  have hagree : (exists coord,
      executeFile executeMacro file = .error (some coord) ∧
        stringGetCoord file (p + off) = some coord) <->
      CoordAgree file p off := by
    rw [executeFile_error hp hfail]
    unfold CoordAgree
    simp only [Except.error.injEq]
  rw [hagree]
  rcases hoff with ⟨pre, post, hvalid, hdrop, rfl⟩
  rw [encoded_append] at hdrop
  have hpre : ValidText pre := fun y hy =>
    hvalid y (List.mem_append_left _ hy)
  cases hhash : hashBang file with
  | false =>
      have hbegin : p = 0 := by
        unfold scriptBegin at hp
        rw [hhash] at hp
        exact (Option.some.inj hp).symm
      subst hbegin
      have hplain : PlainFirstLine file 0 (encoded pre).length := by
        intro htrue
        rw [hhash] at htrue
        cases htrue
      rw [coordAgree_whole hhash hpre hdrop]
      exact ⟨fun h => ⟨h, hplain⟩, fun h => h.1⟩
  | true =>
      rcases scriptBegin_hashBang hfile hhash hp with
        ⟨line, x, rest, htext, hsplit, hx, hline, hbegin⟩
      have hfirst : (encoded line ++ unicharToUtf8 x).length = p := by
        rw [List.length_append, hbegin]
        rcases hx with rfl | rfl
        · rfl
        · rfl
      rw [<- List.append_assoc] at hsplit
      have hscript : encoded rest = encoded pre ++ encoded post := by
        rw [<- hdrop, hsplit, <- hfirst]
        exact List.drop_left.symm
      rw [hscript] at hsplit
      have hfront : ValidText (line ++ x :: pre) := by
        intro y hy
        rcases List.mem_append.mp hy with hy | hy
        · exact htext y (List.mem_append_left _ hy)
        · rcases List.mem_cons.mp hy with rfl | hy
          · exact htext y (List.mem_append_right _ List.mem_cons_self)
          · exact hpre y hy
      rw [coordAgree_behind hhash hfront hx hline hbegin hfirst hdrop hsplit,
        plainFirstLine_iff hhash hx hbegin hsplit rfl]

/-- The second character of a script behind a line of its own. -/
theorem executeFile_coord_iff_second :
    exists coord,
      executeFile (fun _ => .error 1) [0x23, 0x21, 0x0A, 0x30, 0x3B] =
          .error (some coord) ∧
        stringGetCoord [0x23, 0x21, 0x0A, 0x30, 0x3B] (3 + 1) =
          some coord := by
  have hboundary : IsBoundary
      (([0x23, 0x21, 0x0A, 0x30, 0x3B] : Bytes).drop 3) 1 :=
    ⟨[0x30], [0x3B], by decide, rfl, rfl⟩
  refine (executeFile_coord_iff (by unfold ValidUtf8; decide) (by decide) rfl
    hboundary).mpr
      ⟨⟨by decide, by decide⟩, fun _ => ⟨ascii_of_all rfl, by decide⟩⟩

/-- Behind a carriage return the line feed counts as another line. -/
theorem executeFile_coord_crlf :
    ¬ forall (executeMacro : Bytes -> Except Nat Unit) (file : Bytes)
      (p off : Nat), ValidUtf8 file -> scriptBegin file = some p ->
      executeMacro (file.drop p) = .error off ->
      IsBoundary (file.drop p) off ->
      exists coord, executeFile executeMacro file = .error (some coord) ∧
        stringGetCoord file (p + off) = some coord := by
  intro hall
  have hboundary : IsBoundary
      (([0x23, 0x21, 0x0D, 0x0A, 0x3B] : Bytes).drop 3) 1 :=
    ⟨[0x0A], [0x3B], by decide, rfl, rfl⟩
  rcases hall (fun _ => .error 1) [0x23, 0x21, 0x0D, 0x0A, 0x3B] 3 1
    (by unfold ValidUtf8; decide) (by decide) rfl hboundary with
    ⟨coord, hreported, hcoord⟩
  have hreported' : coord = { pos := 4, line := 3, column := 1 } := by
    have heq : executeFile (fun _ => .error 1)
        [0x23, 0x21, 0x0D, 0x0A, 0x3B] =
        .error (some { pos := 4, line := 3, column := 1 }) := by decide
    injection hreported.symm.trans heq with heq
    exact Option.some.inj heq
  have hcoord' : stringGetCoord [0x23, 0x21, 0x0D, 0x0A, 0x3B] (3 + 1) =
      some { pos := 3, line := 2, column := 1 } := by decide
  rw [hreported', hcoord'] at hcoord
  exact absurd hcoord (by decide)

end Parser
end SciTECO
