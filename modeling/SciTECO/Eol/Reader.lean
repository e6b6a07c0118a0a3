import SciTECO.Lib.LineEnds
import SciTECO.Strings

/-!
# The EOL reader

`teco_eol_reader_t` hands out a stream in blocks with normalized line ends.  A
block is a part of the buffer, where carriage returns have been replaced.  The
counters `offset` and `i` of the source are of type `guint`, so that they wrap.
-/

namespace SciTECO
namespace Eol

/-- The values of `guint`. -/
def guintSize : Nat := 2 ^ 32

/-- What one call of `read_cb` delivers, before the end of the stream. -/
abbrev Read : Type := Except TecoError Bytes

/-- `teco_eol_reader_t`.  `buffer` has the `read_len` bytes that have been read
last, `source` is what `read_cb` is going to deliver. -/
structure Reader where
  source : List Read
  buffer : Bytes
  offset : Nat
  blockLen : Nat
  lastChar : Int
  eolStyle : Option LineEnd
  eolStyleInconsistent : Bool
deriving DecidableEq

/-- The result of `teco_eol_reader_convert()`. -/
inductive Status where
  | normal (block : Bytes)
  | eof
  | error (err : TecoError)
deriving DecidableEq

namespace Reader

/-- `teco_eol_reader_init()`. -/
def init (source : List Read) : Reader :=
  { source := source
    buffer := []
    offset := 0
    blockLen := 0
    lastChar := 0
    eolStyle := none
    eolStyleInconsistent := false }

/-- Take note of a line end. -/
def noteStyle (kind : LineEnd) (r : Reader) : Reader :=
  match r.eolStyle with
  | none => { r with eolStyle := some kind }
  | some style =>
      if style ≠ kind then { r with eolStyleInconsistent := true } else r

/-- A carriage return was last read, which no line feed follows. -/
def noteCr (r : Reader) : Reader :=
  if r.lastChar = 13 then r.noteStyle LineEnd.cr else r

/-- The block from `offset` up to `i`. -/
def returnBlock (r : Reader) (len : Nat) : Status × Reader :=
  (.normal ((r.buffer.drop r.offset).take len), { r with blockLen := len })

/-- The loop of `teco_eol_reader_convert()`. -/
def convertLoop : Nat -> Reader -> Nat -> Option (Status × Reader)
  | 0, _, _ => none
  | fuel + 1, r, i =>
      match r.buffer[i]? with
      | none => some (r.returnBlock (r.buffer.length - r.offset))
      | some b =>
          let next := (i + 1) % guintSize
          if b = 10 then
            if r.lastChar = 13 then
              let r := r.noteStyle LineEnd.crlf
              -- the next call skips the line feed
              some ({ r with lastChar := -1 }.returnBlock
                ((i + guintSize - r.offset) % guintSize))
            else
              let r := r.noteStyle LineEnd.lf
              convertLoop fuel { r with lastChar := 10 } next
          else if b = 13 then
            let r := r.noteCr
            convertLoop fuel
              { r with buffer := r.buffer.set i 10, lastChar := 13 } next
          else
            let r := r.noteCr
            convertLoop fuel { r with lastChar := b.toNat } next

/-- Skip what the last call has returned. -/
def skipBlock (r : Reader) : Reader :=
  let r :=
    if r.lastChar < 0 then
      { r with blockLen := r.blockLen + 1, lastChar := 10 }
    else r
  { r with offset := (r.offset + r.blockLen) % guintSize }

/-- `teco_eol_reader_convert()`; `none` if the loop does not end within the
fuel.  `autoEol` is the flag `TECO_ED_AUTOEOL`. -/
def convert (autoEol : Bool) (fuel : Nat) (r : Reader) :
    Option (Status × Reader) :=
  let r := r.skipBlock
  if r.offset < r.buffer.length then
    convertLoop fuel r r.offset
  else
    let r := { r with offset := 0 }
    match r.source with
    | [] => some (.eof, { r with buffer := [] }.noteCr)
    | .error e :: source => some (.error e, { r with source := source })
    | .ok chunk :: source =>
        let r := { r with buffer := chunk, source := source }
        if autoEol then
          convertLoop fuel r 0
        else
          some (r.returnBlock chunk.length)

/-- `teco_eol_reader_convert_all()`. -/
def convertAll (autoEol : Bool) :
    Nat -> Reader -> Option (Except TecoError Bytes × Reader)
  | 0, _ => none
  | fuel + 1, r =>
      match convert autoEol fuel r with
      | none => none
      | some (.error e, r) => some (.error e, r)
      | some (.eof, r) => some (.ok [], r)
      | some (.normal block, r) =>
          match convertAll autoEol fuel r with
          | some (.ok rest, r) => some (.ok (block ++ rest), r)
          | outcome => outcome

/-- `teco_eol_reader_init_mem()`: the whole buffer is read at once. -/
def initMem (buffer : Bytes) : Reader :=
  init (if buffer = [] then [] else [.ok buffer])

/-!
## What remains to be returned
-/

/-- The position in the buffer behind what has been returned. -/
def nextOffset (r : Reader) : Nat :=
  r.offset + r.blockLen + (if r.lastChar < 0 then 1 else 0)

def unread (r : Reader) : Bytes := r.buffer.drop r.nextOffset

/-- The text that a reader makes of the bytes to come. -/
def output (r : Reader) (bytes : Bytes) : Bytes :=
  LineEnd.normalize (if r.lastChar = 13 then LineEnd.dropLf bytes else bytes)

/-- `eol_style` and `eol_style_inconsistent` after another line end. -/
def note (styles : Option LineEnd × Bool) (kind : LineEnd) :
    Option LineEnd × Bool :=
  match styles.1 with
  | none => (some kind, styles.2)
  | some style => (some style, styles.2 || style != kind)

/-- The styles after the bytes to come. -/
def styles (r : Reader) (bytes : Bytes) : Option LineEnd × Bool :=
  (LineEnd.kinds (if r.lastChar = 13 then 13 :: bytes else bytes)).foldl note
    (r.eolStyle, r.eolStyleInconsistent)

theorem noteStyle_styles (kind : LineEnd) (r : Reader) :
    ((r.noteStyle kind).eolStyle, (r.noteStyle kind).eolStyleInconsistent) =
      note (r.eolStyle, r.eolStyleInconsistent) kind := by
  unfold noteStyle note
  cases hstyle : r.eolStyle with
  | none => rfl
  | some style =>
      dsimp only
      by_cases h : style = kind
      · simp [h, hstyle]
      · simp [h]

@[simp] theorem noteStyle_source (kind : LineEnd) (r : Reader) :
    (r.noteStyle kind).source = r.source := by
  unfold noteStyle
  split
  · rfl
  · split <;> rfl

@[simp] theorem noteStyle_buffer (kind : LineEnd) (r : Reader) :
    (r.noteStyle kind).buffer = r.buffer := by
  unfold noteStyle
  split
  · rfl
  · split <;> rfl

@[simp] theorem noteStyle_offset (kind : LineEnd) (r : Reader) :
    (r.noteStyle kind).offset = r.offset := by
  unfold noteStyle
  split
  · rfl
  · split <;> rfl

@[simp] theorem noteCr_source (r : Reader) : r.noteCr.source = r.source := by
  unfold noteCr
  split
  · exact noteStyle_source _ r
  · rfl

@[simp] theorem noteCr_buffer (r : Reader) : r.noteCr.buffer = r.buffer := by
  unfold noteCr
  split
  · exact noteStyle_buffer _ r
  · rfl

@[simp] theorem noteCr_offset (r : Reader) : r.noteCr.offset = r.offset := by
  unfold noteCr
  split
  · exact noteStyle_offset _ r
  · rfl

/-- A carriage return in front of anything but a line feed has been noted. -/
theorem styles_noteCr {r : Reader} {bytes : Bytes}
    (hlf : bytes.head? ≠ some 10) :
    r.styles bytes = (LineEnd.kinds bytes).foldl note
      (r.noteCr.eolStyle, r.noteCr.eolStyleInconsistent) := by
  unfold styles noteCr
  split
  · rw [noteStyle_styles, LineEnd.kinds_cr, if_neg hlf,
      LineEnd.dropLf_of_head hlf]
    rfl
  · rfl

theorem output_of_head {r : Reader} {bytes : Bytes}
    (hlf : bytes.head? ≠ some 10) :
    r.output bytes = LineEnd.normalize bytes := by
  unfold output
  split
  · rw [LineEnd.dropLf_of_head hlf]
  · rfl

/-!
## One call
-/

/-- The bytes from `i` on have been read up to the end of a block. -/
structure Returned (bytes : Bytes) (r : Reader) (i : Nat) (block : Bytes)
    (r' : Reader) : Prop where
  source : r'.source = r.source
  length : r'.buffer.length = r.buffer.length
  nextOffset : r'.nextOffset <= r'.buffer.length
  progress : r'.unread.length <= r.buffer.length - (i + 1)
  output : block ++ r'.output (r'.unread ++ bytes) =
    (r.buffer.drop r.offset).take (i - r.offset) ++
      r.output (r.buffer.drop i ++ bytes)
  styles : r'.styles (r'.unread ++ bytes) =
    r.styles (r.buffer.drop i ++ bytes)

theorem slice_succ {bytes : Bytes} {off i : Nat} {b : UInt8}
    (hoff : off <= i) (hb : bytes[i]? = some b) :
    (bytes.drop off).take (i + 1 - off) =
      (bytes.drop off).take (i - off) ++ [b] := by
  have hget : (bytes.drop off)[i - off]? = some b := by
    rw [List.getElem?_drop, Nat.add_sub_cancel' hoff]
    exact hb
  rw [Nat.sub_add_comm hoff, List.take_add_one, hget]
  rfl

theorem slice_set {bytes : Bytes} {off i : Nat} (b : UInt8) :
    ((bytes.set i b).drop off).take (i - off) =
      (bytes.drop off).take (i - off) := by
  by_cases hoff : off <= i
  · rw [List.drop_set, if_neg (Nat.not_lt.mpr hoff),
      List.take_set_of_le (Nat.le_refl _)]
  · have hzero : i - off = 0 := Nat.sub_eq_zero_of_le (Nat.le_of_not_le hoff)
    rw [hzero, List.take_zero, List.take_zero]

theorem drop_of_getElem? {bytes : Bytes} {i : Nat} {b : UInt8}
    (hb : bytes[i]? = some b) : bytes.drop i = b :: bytes.drop (i + 1) := by
  rw [List.drop_eq_getElem?_toList_append, hb]
  rfl

theorem set_of_getElem? {bytes : Bytes} {i : Nat} {b : UInt8}
    (hb : bytes[i]? = some b) : bytes.set i b = bytes := by
  rcases List.getElem?_eq_some_iff.mp hb with ⟨hi, hget⟩
  rw [<- hget]
  exact List.set_getElem_self hi

/-- The byte at `i` has been read. -/
theorem Returned.step {bytes : Bytes} {r r₁ r' : Reader} {i : Nat}
    {block : Bytes} {c : UInt8} (h : Returned bytes r₁ (i + 1) block r')
    (hsource : r₁.source = r.source) (hoffset : r₁.offset = r.offset)
    (hoff : r.offset <= i)
    (hbuffer : r₁.buffer = r.buffer.set i c) (hlen : i < r.buffer.length)
    (houtput : r.output (r.buffer.drop i ++ bytes) =
      c :: r₁.output (r.buffer.drop (i + 1) ++ bytes))
    (hstyles : r.styles (r.buffer.drop i ++ bytes) =
      r₁.styles (r.buffer.drop (i + 1) ++ bytes)) :
    Returned bytes r i block r' := by
  have hlength : r₁.buffer.length = r.buffer.length := by
    rw [hbuffer, List.length_set]
  have hdrop : r₁.buffer.drop (i + 1) = r.buffer.drop (i + 1) := by
    rw [hbuffer, List.drop_set_of_lt (Nat.lt_succ_self i)]
  have hget : r₁.buffer[i]? = some c := by
    rw [hbuffer, List.getElem?_set_self hlen]
  have hslice : (r₁.buffer.drop r₁.offset).take (i + 1 - r₁.offset) =
      (r.buffer.drop r.offset).take (i - r.offset) ++ [c] := by
    rw [hoffset, slice_succ hoff hget, hbuffer, slice_set]
  have hprogress := h.progress
  rw [hlength] at hprogress
  exact
    { source := h.source.trans hsource
      length := h.length.trans hlength
      nextOffset := h.nextOffset
      progress := Nat.le_trans hprogress (by omega)
      output := by
        rw [h.output, hslice, hdrop, houtput, List.append_assoc]
        rfl
      styles := by rw [h.styles, hdrop, hstyles] }

/-- The block ends at `i`, and the next one begins at `n`. -/
theorem returned_at {bytes : Bytes} {r r' : Reader} {i n : Nat}
    {block : Bytes}
    (hblock : block = (r.buffer.drop r.offset).take (i - r.offset))
    (hsource : r'.source = r.source) (hbuffer : r'.buffer = r.buffer)
    (hnext : r'.nextOffset = n) (hn : n <= r.buffer.length)
    (hprogress : r.buffer.length - n <= r.buffer.length - (i + 1))
    (houtput : r'.output (r.buffer.drop n ++ bytes) =
      r.output (r.buffer.drop i ++ bytes))
    (hstyles : r'.styles (r.buffer.drop n ++ bytes) =
      r.styles (r.buffer.drop i ++ bytes)) :
    Returned bytes r i block r' := by
  have hunread : r'.unread = r.buffer.drop n := by
    unfold unread
    rw [hnext, hbuffer]
  exact
    { source := hsource
      length := congrArg List.length hbuffer
      nextOffset := by rw [hnext, hbuffer]; exact hn
      progress := by rw [hunread, List.length_drop]; exact hprogress
      output := by rw [hunread, houtput, hblock]
      styles := by rw [hunread, hstyles] }

theorem output_lf_after_cr {r : Reader} (hcr : r.lastChar = 13)
    (bytes : Bytes) : r.output (10 :: bytes) = LineEnd.normalize bytes := by
  unfold output
  rw [if_pos hcr, LineEnd.dropLf_lf]

theorem styles_lf_after_cr {r : Reader} (hcr : r.lastChar = 13)
    (bytes : Bytes) :
    r.styles (10 :: bytes) = (LineEnd.kinds bytes).foldl note
      ((r.noteStyle .crlf).eolStyle,
        (r.noteStyle .crlf).eolStyleInconsistent) := by
  unfold styles
  rw [if_pos hcr, LineEnd.kinds_cr, noteStyle_styles]
  rfl

theorem output_lf {r : Reader} (hcr : r.lastChar ≠ 13) (bytes : Bytes) :
    r.output (10 :: bytes) = 10 :: LineEnd.normalize bytes := by
  unfold output LineEnd.normalize
  rw [if_neg hcr, LineEnd.encode_lf]
  rfl

theorem styles_lf {r : Reader} (hcr : r.lastChar ≠ 13) (bytes : Bytes) :
    r.styles (10 :: bytes) = (LineEnd.kinds bytes).foldl note
      ((r.noteStyle .lf).eolStyle, (r.noteStyle .lf).eolStyleInconsistent) := by
  unfold styles
  rw [if_neg hcr, LineEnd.kinds_lf, noteStyle_styles]
  rfl

/-- The loop ends a block, if the counter does not wrap. -/
theorem convertLoop_returned {fuel : Nat} {r : Reader} {i : Nat}
    (hlen : r.buffer.length < guintSize) (hoff : r.offset <= i)
    (hi : i <= r.buffer.length) (hlast : 0 <= r.lastChar)
    (hfuel : r.buffer.length - i < fuel) :
    exists block r', convertLoop fuel r i = some (.normal block, r') ∧
      forall bytes, Returned bytes r i block r' := by
  induction fuel generalizing r i with
  | zero => exact absurd hfuel (Nat.not_lt_zero _)
  | succ fuel ih =>
      unfold convertLoop
      cases hb : r.buffer[i]? with
      | none =>
          have hend : i = r.buffer.length :=
            Nat.le_antisymm hi (List.getElem?_eq_none_iff.mp hb)
          subst hend
          refine ⟨_, _, rfl, fun bytes => ?_⟩
          apply returned_at (n := r.buffer.length)
          · rfl
          · rfl
          · rfl
          · show r.offset + (r.buffer.length - r.offset) +
              (if r.lastChar < 0 then 1 else 0) = _
            rw [if_neg (Int.not_lt.mpr hlast), Nat.add_zero]
            exact Nat.add_sub_cancel' hoff
          · exact Nat.le_refl _
          · omega
          · rfl
          · rfl
      | some b =>
          have hlt : i < r.buffer.length := (List.getElem?_eq_some_iff.mp hb).1
          have hnext : (i + 1) % guintSize = i + 1 :=
            Nat.mod_eq_of_lt (Nat.lt_of_le_of_lt hlt hlen)
          have hdrop := drop_of_getElem? hb
          have hsame : r.buffer.set i b = r.buffer := set_of_getElem? hb
          -- The loop goes on with another last character.
          have hloop (r₁ : Reader) {c : UInt8}
              (hsource : r₁.source = r.source) (hoffset : r₁.offset = r.offset)
              (hbuffer : r₁.buffer = r.buffer.set i c)
              (hlast₁ : 0 <= r₁.lastChar)
              (houtput : forall bytes,
                r.output (b :: bytes) = c :: r₁.output bytes)
              (hstyles : forall bytes,
                r.styles (b :: bytes) = r₁.styles bytes) :
              exists block r', convertLoop fuel r₁ (i + 1) =
                  some (.normal block, r') ∧
                forall bytes, Returned bytes r i block r' := by
            have hlength : r₁.buffer.length = r.buffer.length := by
              rw [hbuffer, List.length_set]
            rcases ih (r := r₁) (i := i + 1) (by rw [hlength]; exact hlen)
              (by rw [hoffset]; exact Nat.le_succ_of_le hoff)
              (by rw [hlength]; exact hlt) hlast₁
              (by rw [hlength]; omega) with ⟨block, r', hrun, hreturned⟩
            refine ⟨block, r', hrun, fun bytes => ?_⟩
            apply (hreturned bytes).step hsource hoffset hoff hbuffer hlt
            · rw [hdrop]
              exact houtput _
            · rw [hdrop]
              exact hstyles _
          dsimp only
          rw [hnext]
          by_cases hlf : b = 10
          · subst hlf
            rw [if_pos rfl]
            by_cases hcr : r.lastChar = 13
            · have hblock : (i + guintSize - r.offset) % guintSize =
                  i - r.offset := by
                rw [Nat.sub_add_comm hoff, Nat.add_mod_right]
                exact Nat.mod_eq_of_lt (by omega)
              rw [if_pos hcr, noteStyle_offset, hblock]
              refine ⟨_, _, rfl, fun bytes => ?_⟩
              apply returned_at (n := i + 1)
              · show ((r.noteStyle .crlf).buffer.drop r.offset).take
                  (i - r.offset) = _
                rw [noteStyle_buffer]
              · exact noteStyle_source _ r
              · exact noteStyle_buffer _ r
              · show r.offset + (i - r.offset) + 1 = i + 1
                rw [Nat.add_sub_cancel' hoff]
              · exact hlt
              · exact Nat.le_refl _
              · rw [hdrop]
                exact (output_lf_after_cr hcr _).symm
              · rw [hdrop]
                exact (styles_lf_after_cr hcr _).symm
            · rw [if_neg hcr]
              apply hloop { r.noteStyle .lf with lastChar := 10 }
                (noteStyle_source _ r) (noteStyle_offset _ r)
                (by rw [hsame]; exact noteStyle_buffer _ r)
                (show (0 : Int) <= 10 by decide)
              · intro bytes
                exact output_lf hcr bytes
              · intro bytes
                exact styles_lf hcr bytes
          · rw [if_neg hlf]
            have hhead (bytes : Bytes) : (b :: bytes).head? ≠ some 10 :=
              fun h => hlf (Option.some.inj h)
            by_cases hcr : b = 13
            · subst hcr
              rw [if_pos rfl]
              apply hloop
                { r.noteCr with
                  buffer := r.noteCr.buffer.set i 10
                  lastChar := 13 }
                (noteCr_source r) (noteCr_offset r)
                (by rw [noteCr_buffer]) (show (0 : Int) <= 13 by decide)
              · intro bytes
                rw [output_of_head (hhead bytes)]
                exact LineEnd.encode_cr _ bytes
              · intro bytes
                rw [styles_noteCr (hhead bytes)]
                rfl
            · rw [if_neg hcr]
              have hlast₁ : (b.toNat : Int) ≠ 13 := by
                intro h
                apply hcr
                exact UInt8.toNat_inj.mp (Int.ofNat.inj h)
              apply hloop { r.noteCr with lastChar := b.toNat }
                (noteCr_source r) (noteCr_offset r)
                (by rw [hsame]; exact noteCr_buffer r) (Int.natCast_nonneg _)
              · intro bytes
                rw [output_of_head (hhead bytes)]
                unfold output
                rw [if_neg hlast₁]
                exact LineEnd.encode_other _ hcr hlf bytes
              · intro bytes
                rw [styles_noteCr (hhead bytes)]
                unfold styles
                rw [if_neg hlast₁, LineEnd.kinds_other hcr hlf]

/-- The counters have not wrapped, and the last block is inside the buffer. -/
structure Ready (r : Reader) : Prop where
  length : r.buffer.length < guintSize
  nextOffset : r.nextOffset <= r.buffer.length

theorem ready_init (source : List Read) : (init source).Ready where
  length := Nat.two_pow_pos 32
  nextOffset := Nat.le_refl 0

/-- A block has been made of some bytes, which follow those of `r`. -/
structure Gives (r : Reader) (bytes block : Bytes) (r' : Reader) : Prop where
  ready : r'.Ready
  progress : r'.unread.length <= bytes.length - 1
  output : forall rest,
    block ++ r'.output (r'.unread ++ rest) = r.output (bytes ++ rest)
  styles : forall rest,
    r'.styles (r'.unread ++ rest) = r.styles (bytes ++ rest)

theorem Returned.gives {r r₁ r' : Reader} {i : Nat} {block : Bytes}
    (h : forall bytes, Returned bytes r₁ i block r')
    (hlen : r₁.buffer.length < guintSize) (hoff : r₁.offset = i)
    (hcr : r₁.lastChar = 13 <-> r.lastChar = 13)
    (hstyle : r₁.eolStyle = r.eolStyle)
    (hinconsistent : r₁.eolStyleInconsistent = r.eolStyleInconsistent) :
    Gives r (r₁.buffer.drop i) block r' := by
  constructor
  · constructor
    · rw [(h []).length]
      exact hlen
    · exact (h []).nextOffset
  · rw [List.length_drop, Nat.sub_sub]
    exact (h []).progress
  · intro rest
    rw [(h rest).output, hoff, Nat.sub_self, List.take_zero]
    unfold Reader.output
    simp only [hcr]
    rfl
  · intro rest
    rw [(h rest).styles]
    unfold Reader.styles
    simp only [hcr, hstyle, hinconsistent]

theorem skipBlock_offset {r : Reader} (h : r.Ready) :
    r.skipBlock.offset = r.nextOffset := by
  have hmod : r.nextOffset % guintSize = r.nextOffset :=
    Nat.mod_eq_of_lt (Nat.lt_of_le_of_lt h.nextOffset h.length)
  unfold skipBlock
  unfold nextOffset at hmod ⊢
  split
  case isTrue hlast =>
      rw [if_pos hlast] at hmod
      exact hmod
  case isFalse hlast =>
      rw [if_neg hlast] at hmod
      exact hmod

@[simp] theorem skipBlock_source (r : Reader) :
    r.skipBlock.source = r.source := by
  unfold skipBlock
  split <;> rfl

@[simp] theorem skipBlock_buffer (r : Reader) :
    r.skipBlock.buffer = r.buffer := by
  unfold skipBlock
  split <;> rfl

theorem skipBlock_eolStyle (r : Reader) :
    r.skipBlock.eolStyle = r.eolStyle := by
  unfold skipBlock
  split <;> rfl

theorem skipBlock_inconsistent (r : Reader) :
    r.skipBlock.eolStyleInconsistent = r.eolStyleInconsistent := by
  unfold skipBlock
  split <;> rfl

theorem skipBlock_lastChar (r : Reader) : 0 <= r.skipBlock.lastChar := by
  unfold skipBlock
  split
  case isTrue => exact (show (0 : Int) <= 10 by decide)
  case isFalse hlast => exact Int.not_lt.mp hlast

theorem skipBlock_cr (r : Reader) :
    r.skipBlock.lastChar = 13 <-> r.lastChar = 13 := by
  unfold skipBlock
  split
  case isTrue hlast =>
      constructor
      · intro h
        exact absurd h (show (10 : Int) ≠ 13 by decide)
      · intro h
        rw [h] at hlast
        exact absurd hlast (by decide)
  case isFalse => exact Iff.rfl

/-- Another block of the bytes that have been read already. -/
theorem convert_unread {fuel : Nat} {r : Reader} (h : r.Ready)
    (hunread : r.nextOffset < r.buffer.length)
    (hfuel : r.unread.length < fuel) :
    exists block r', convert true fuel r = some (.normal block, r') ∧
      r'.source = r.source ∧ Gives r r.unread block r' := by
  have hoffset := skipBlock_offset h
  have hbuffer := skipBlock_buffer r
  have hlength : r.unread.length = r.buffer.length - r.nextOffset :=
    List.length_drop
  rcases convertLoop_returned (r := r.skipBlock)
    (i := r.nextOffset) (by rw [hbuffer]; exact h.length)
    (Nat.le_of_eq hoffset) (by rw [hbuffer]; exact h.nextOffset)
    (skipBlock_lastChar r) (by rw [hbuffer, <- hlength]; exact hfuel) with
    ⟨block, r', hrun, hreturned⟩
  refine ⟨block, r', ?_, ?_, ?_⟩
  · unfold convert
    dsimp only
    rw [hoffset, hbuffer, if_pos hunread]
    exact hrun
  · rw [(hreturned []).source, skipBlock_source]
  · have hgives := Returned.gives (r := r) hreturned
      (by rw [hbuffer]; exact h.length) hoffset (skipBlock_cr r)
      (skipBlock_eolStyle r) (skipBlock_inconsistent r)
    rw [hbuffer] at hgives
    exact hgives

/-- A block of the next bytes of the stream. -/
theorem convert_chunk {fuel : Nat} {r : Reader} {chunk : Bytes}
    {source : List Read} (h : r.Ready)
    (hunread : r.buffer.length <= r.nextOffset)
    (hsource : r.source = .ok chunk :: source)
    (hchunk : chunk.length < guintSize) (hfuel : chunk.length < fuel) :
    exists block r', convert true fuel r = some (.normal block, r') ∧
      r'.source = source ∧ Gives r chunk block r' := by
  let r₁ : Reader :=
    { r.skipBlock with offset := 0, buffer := chunk, source := source }
  rcases convertLoop_returned (r := r₁) (i := 0) hchunk
    (Nat.le_refl 0) (Nat.zero_le _) (skipBlock_lastChar r) hfuel with
    ⟨block, r', hrun, hreturned⟩
  refine ⟨block, r', ?_, ?_, ?_⟩
  · unfold convert
    dsimp only
    rw [skipBlock_offset h, skipBlock_buffer,
      if_neg (Nat.not_lt.mpr hunread), skipBlock_source, hsource]
    exact hrun
  · rw [(hreturned []).source]
  · exact Returned.gives hreturned hchunk rfl (skipBlock_cr r)
      (skipBlock_eolStyle r) (skipBlock_inconsistent r)

/-- The end of the stream. -/
theorem convert_eof (fuel : Nat) {r : Reader} (h : r.Ready)
    (hunread : r.buffer.length <= r.nextOffset) (hsource : r.source = []) :
    exists r', convert true fuel r = some (.eof, r') ∧
      r'.source = [] ∧ r'.buffer = [] ∧
      r.styles [] = (r'.eolStyle, r'.eolStyleInconsistent) := by
  let r₁ : Reader :=
    { r.skipBlock with source := [], offset := 0, buffer := [] }
  refine ⟨r₁.noteCr, ?_, noteCr_source r₁, noteCr_buffer r₁, ?_⟩
  · unfold convert
    dsimp only
    rw [skipBlock_offset h, skipBlock_buffer,
      if_neg (Nat.not_lt.mpr hunread), skipBlock_source, hsource]
  · have hstyles : r.styles [] = r₁.styles [] := by
      unfold styles
      rw [show r₁.eolStyle = r.eolStyle from skipBlock_eolStyle r,
        show r₁.eolStyleInconsistent = r.eolStyleInconsistent from
          skipBlock_inconsistent r]
      simp only [show r₁.lastChar = 13 <-> r.lastChar = 13 from
        skipBlock_cr r]
    rw [hstyles, styles_noteCr (by simp)]
    rfl

/-- All blocks together. -/
theorem convertAll_reads {fuel : Nat} {r : Reader} {chunks : List Bytes}
    (h : r.Ready) (hsource : r.source = chunks.map Except.ok)
    (hchunks : forall c, c ∈ chunks -> c.length < guintSize)
    (hfuel : r.unread.length +
      (chunks.map (fun c => c.length + 1)).sum + 1 < fuel) :
    exists r', convertAll true fuel r =
        some (.ok (r.output (r.unread ++ chunks.flatten)), r') ∧
      (r'.eolStyle, r'.eolStyleInconsistent) =
        r.styles (r.unread ++ chunks.flatten) := by
  induction fuel generalizing r chunks with
  | zero => exact absurd hfuel (Nat.not_lt_zero _)
  | succ fuel ih =>
      -- What follows after a block.
      have hnext {bytes block : Bytes} {r₁ : Reader} {rest : List Bytes}
          (hrun : convert true fuel r = some (.normal block, r₁))
          (hsource₁ : r₁.source = rest.map Except.ok)
          (hgives : Gives r bytes block r₁)
          (hrest : forall c, c ∈ rest -> c.length < guintSize)
          (hbytes : bytes ++ rest.flatten = r.unread ++ chunks.flatten)
          (hless : r₁.unread.length + (rest.map (fun c => c.length + 1)).sum +
            1 < fuel) :
          exists r', convertAll true (fuel + 1) r =
              some (.ok (r.output (r.unread ++ chunks.flatten)), r') ∧
            (r'.eolStyle, r'.eolStyleInconsistent) =
              r.styles (r.unread ++ chunks.flatten) := by
        rcases ih hgives.ready hsource₁ hrest hless with
          ⟨r', hall, hstyles⟩
        refine ⟨r', ?_, ?_⟩
        · unfold convertAll
          rw [hrun]
          dsimp only
          rw [hall]
          dsimp only
          rw [hgives.output, hbytes]
        · rw [hstyles, hgives.styles, hbytes]
      by_cases hunread : r.nextOffset < r.buffer.length
      · have hpositive : 0 < r.unread.length := by
          unfold unread
          rw [List.length_drop]
          omega
        have hless : r.unread.length < fuel := by omega
        rcases convert_unread h hunread hless with
          ⟨block, r₁, hrun, hsource₁, hgives⟩
        have hprogress := hgives.progress
        apply hnext hrun (hsource₁.trans hsource) hgives hchunks rfl
        omega
      · have hend : r.buffer.length <= r.nextOffset := Nat.not_lt.mp hunread
        have hempty : r.unread = [] := List.drop_eq_nil_of_le hend
        cases chunks with
        | nil =>
            rcases convert_eof fuel h hend hsource with
              ⟨r', hrun, _, _, hstyles⟩
            refine ⟨r', ?_, ?_⟩
            · unfold convertAll
              rw [hrun, hempty, output_of_head (by simp)]
              rfl
            · rw [hempty]
              exact hstyles.symm
        | cons chunk chunks =>
            rw [List.map_cons, List.sum_cons] at hfuel
            have hless : chunk.length < fuel := by omega
            rcases convert_chunk h hend hsource
              (hchunks chunk List.mem_cons_self) hless with
              ⟨block, r₁, hrun, hsource₁, hgives⟩
            have hprogress := hgives.progress
            have hrest : forall c, c ∈ chunks -> c.length < guintSize := by
              intro c hc
              exact hchunks c (List.mem_cons_of_mem chunk hc)
            have hbytes : chunk ++ chunks.flatten =
                r.unread ++ (chunk :: chunks).flatten := by
              rw [hempty]
              rfl
            exact hnext hrun hsource₁ hgives hrest hbytes (by omega)

/-!
## Chunks
-/

theorem foldl_note_some (style : LineEnd) (inconsistent : Bool)
    (kinds : List LineEnd) :
    kinds.foldl note (some style, inconsistent) =
      (some style, inconsistent || kinds.any (fun kind => style != kind)) := by
  induction kinds generalizing inconsistent with
  | nil => simp
  | cons kind kinds ih =>
      show kinds.foldl note (some style, inconsistent || style != kind) = _
      rw [ih, List.any_cons, Bool.or_assoc]

/-- The first line end decides about the style. -/
theorem foldl_note_head (kinds : List LineEnd) :
    (kinds.foldl note (none, false)).1 = kinds.head? := by
  cases kinds with
  | nil => rfl
  | cons style kinds => exact congrArg Prod.fst (foldl_note_some _ _ _)

theorem foldl_note_inconsistent (kinds : List LineEnd) :
    (kinds.foldl note (none, false)).2 = true <->
      ¬forall k, k ∈ kinds -> forall l, l ∈ kinds -> k = l := by
  cases kinds with
  | nil => simp
  | cons style kinds =>
      have hfold : ((style :: kinds).foldl note (none, false)).2 =
          kinds.any (fun kind => style != kind) :=
        (congrArg Prod.snd (foldl_note_some style false kinds)).trans
          (Bool.false_or _)
      rw [hfold, List.any_eq_true]
      constructor
      · intro h huniform
        rcases h with ⟨kind, hmem, hne⟩
        have heq := huniform style List.mem_cons_self kind
          (List.mem_cons_of_mem style hmem)
        exact absurd heq (bne_iff_ne.mp hne)
      · intro h
        by_contra hall
        have hsame (k : LineEnd) (hk : k ∈ style :: kinds) : k = style := by
          rcases List.mem_cons.mp hk with hk | hk
          · exact hk
          · by_contra hne
            exact hall ⟨k, hk, bne_iff_ne.mpr (Ne.symm hne)⟩
        apply h
        intro k hk l hl
        rw [hsame k hk, hsame l hl]

/-- The reader cannot get beyond its buffer. -/
def Oversized (r : Reader) : Prop :=
  guintSize <= r.buffer.length ∨
    exists chunk, Except.ok chunk ∈ r.source ∧ guintSize <= chunk.length

theorem convertLoop_length {fuel : Nat} {r r' : Reader} {i : Nat}
    {status : Status} (h : convertLoop fuel r i = some (status, r')) :
    (exists block, status = .normal block) ∧ r'.source = r.source ∧
      r'.buffer.length = r.buffer.length := by
  induction fuel generalizing r i with
  | zero => cases h
  | succ fuel ih =>
      unfold convertLoop at h
      split at h
      case h_1 =>
          cases h
          exact ⟨⟨_, rfl⟩, rfl, rfl⟩
      case h_2 b _ =>
          dsimp only at h
          split at h
          case isTrue =>
              split at h
              case isTrue =>
                  cases h
                  exact ⟨⟨_, rfl⟩, noteStyle_source _ r,
                    congrArg List.length (noteStyle_buffer _ r)⟩
              case isFalse =>
                  rcases ih h with ⟨hstatus, hsource, hlength⟩
                  refine ⟨hstatus, hsource.trans (noteStyle_source _ r), ?_⟩
                  exact hlength.trans
                    (congrArg List.length (noteStyle_buffer _ r))
          case isFalse =>
              split at h
              case isTrue =>
                  rcases ih h with ⟨hstatus, hsource, hlength⟩
                  refine ⟨hstatus, hsource.trans (noteCr_source r), ?_⟩
                  rw [hlength, List.length_set, noteCr_buffer]
              case isFalse =>
                  rcases ih h with ⟨hstatus, hsource, hlength⟩
                  refine ⟨hstatus, hsource.trans (noteCr_source r), ?_⟩
                  rw [hlength, noteCr_buffer]

/-- The offset stays below the length of the buffer. -/
theorem convert_oversized {fuel : Nat} {r r' : Reader} {status : Status}
    {chunks : List Bytes} (hsource : r.source = chunks.map Except.ok)
    (h : r.Oversized) (hrun : convert true fuel r = some (status, r')) :
    (exists block, status = .normal block) ∧ r'.Oversized ∧
      exists rest : List Bytes, r'.source = rest.map Except.ok := by
  have hoffset : r.skipBlock.offset < guintSize := by
    unfold skipBlock
    exact Nat.mod_lt _ (Nat.two_pow_pos 32)
  unfold convert at hrun
  dsimp only at hrun
  split at hrun
  case isTrue =>
      rcases convertLoop_length hrun with ⟨hstatus, hsource', hlength⟩
      rw [skipBlock_source] at hsource'
      refine ⟨hstatus, ?_, chunks, hsource'.trans hsource⟩
      unfold Oversized
      rw [hsource', hlength, skipBlock_buffer]
      exact h
  case isFalse hend =>
      have hbuffer : ¬guintSize <= r.buffer.length := by
        intro hlarge
        rw [skipBlock_buffer] at hend
        exact hend (Nat.lt_of_lt_of_le hoffset hlarge)
      rcases h with h | h
      · exact absurd h hbuffer
      rw [skipBlock_source, hsource] at hrun
      rw [hsource] at h
      cases chunks with
      | nil =>
          rcases h with ⟨chunk, hchunk, _⟩
          cases hchunk
      | cons chunk chunks =>
          rcases convertLoop_length hrun with ⟨hstatus, hsource', hlength⟩
          refine ⟨hstatus, ?_, chunks, hsource'⟩
          unfold Oversized
          rw [hsource', hlength]
          rcases h with ⟨large, hlarge, hsize⟩
          rcases List.mem_cons.mp hlarge with heq | hlarge
          · apply Or.inl
            rw [<- Except.ok.inj heq]
            exact hsize
          · exact Or.inr ⟨large, hlarge, hsize⟩

/-- The end of the stream is never reached. -/
theorem convertAll_oversized {fuel : Nat} {r : Reader} {chunks : List Bytes}
    (hsource : r.source = chunks.map Except.ok) (h : r.Oversized) :
    convertAll true fuel r = none := by
  induction fuel generalizing r chunks with
  | zero => rfl
  | succ fuel ih =>
      unfold convertAll
      cases hrun : convert true fuel r with
      | none => rfl
      | some outcome =>
          rcases convert_oversized hsource h hrun with
            ⟨⟨block, hstatus⟩, hlarge, rest, hrest⟩
          rcases outcome with ⟨status, r₁⟩
          dsimp only at hstatus hlarge hrest
          subst hstatus
          dsimp only
          rw [ih hrest hlarge]

/-!
## Empty blocks
-/

/-- A carriage return was last read. -/
def cr (r : Reader) : Bool := r.lastChar == 13

/-- Whether a carriage return is last, after some more bytes. -/
def lastCr (cr : Bool) (bytes : Bytes) : Bool :=
  bytes.foldl (fun _ b => b == 13) cr

@[simp] theorem lastCr_nil (cr : Bool) : lastCr cr [] = cr := rfl

@[simp] theorem lastCr_cons (cr : Bool) (b : UInt8) (bytes : Bytes) :
    lastCr cr (b :: bytes) = lastCr (b == 13) bytes := rfl

theorem cr_eq_true {r : Reader} : r.cr = true <-> r.lastChar = 13 :=
  beq_iff_eq

/-- What a block leaves in the buffer. -/
structure Left (cr : Bool) (bytes : Bytes) (r' : Reader) : Prop where
  lastCr : lastCr r'.cr r'.unread = lastCr cr bytes
  unread : r'.cr = true -> r'.unread = []

theorem convertLoop_left {fuel : Nat} {r r' : Reader} {i : Nat}
    {block : Bytes} (hlen : r.buffer.length < guintSize)
    (hoff : r.offset <= i) (hi : i <= r.buffer.length)
    (hlast : 0 <= r.lastChar)
    (h : convertLoop fuel r i = some (.normal block, r')) :
    (r.offset < i -> block ≠ []) ∧ Left r.cr (r.buffer.drop i) r' := by
  induction fuel generalizing r i with
  | zero => cases h
  | succ fuel ih =>
      -- A block which ends behind its beginning is not empty.
      have hblock {len : Nat} (hlt : r.offset < i) (hlenBlock : len = i - r.offset) :
          (r.buffer.drop r.offset).take len ≠ [] := by
        intro hnil
        have hlength := congrArg List.length hnil
        rw [List.length_take, List.length_drop, hlenBlock, List.length_nil]
          at hlength
        omega
      unfold convertLoop at h
      cases hb : r.buffer[i]? with
      | none =>
          have hend : i = r.buffer.length :=
            Nat.le_antisymm hi (List.getElem?_eq_none_iff.mp hb)
          rw [hb] at h
          have hpair := Option.some.inj h
          have hr' : (r.returnBlock (r.buffer.length - r.offset)).2 = r' :=
            congrArg Prod.snd hpair
          have hunread : r'.unread = [] := by
            rw [<- hr']
            apply List.drop_eq_nil_of_le
            show r.buffer.length <= r.offset + (r.buffer.length - r.offset) + _
            omega
          constructor
          · intro hlt
            rw [<- Status.normal.inj (congrArg Prod.fst hpair)]
            exact hblock hlt (by rw [hend])
          · constructor
            · rw [hunread, hend, List.drop_length, <- hr']
              rfl
            · intro _
              exact hunread
      | some b =>
          have hlt : i < r.buffer.length := (List.getElem?_eq_some_iff.mp hb).1
          have hnext : (i + 1) % guintSize = i + 1 :=
            Nat.mod_eq_of_lt (Nat.lt_of_le_of_lt hlt hlen)
          have hdrop := drop_of_getElem? hb
          -- The loop goes on with another last character.
          have hloop (r₁ : Reader) {c : UInt8}
              (hoffset : r₁.offset = r.offset)
              (hbuffer : r₁.buffer = r.buffer.set i c)
              (hlast₁ : 0 <= r₁.lastChar) (hcr : r₁.cr = (b == 13))
              (h : convertLoop fuel r₁ (i + 1) = some (.normal block, r')) :
              (r.offset < i -> block ≠ []) ∧ Left r.cr (r.buffer.drop i) r' := by
            have hlength : r₁.buffer.length = r.buffer.length := by
              rw [hbuffer, List.length_set]
            rcases ih (by rw [hlength]; exact hlen)
              (by rw [hoffset]; exact Nat.le_succ_of_le hoff)
              (by rw [hlength]; exact hlt) hlast₁ h with ⟨hne, hleft⟩
            constructor
            · intro _
              apply hne
              rw [hoffset]
              exact Nat.lt_succ_of_le hoff
            · constructor
              · rw [hleft.lastCr, hbuffer,
                  List.drop_set_of_lt (Nat.lt_succ_self i), hcr, hdrop,
                  lastCr_cons]
              · exact hleft.unread
          rw [hb] at h
          dsimp only at h
          rw [hnext] at h
          split at h
          case isTrue hlf =>
              have hsame : r.buffer.set i 10 = r.buffer := by
                rw [<- hlf]
                exact set_of_getElem? hb
              split at h
              case isTrue hcr =>
                  have hlenBlock : (i + guintSize - r.offset) % guintSize =
                      i - r.offset := by
                    rw [Nat.sub_add_comm hoff, Nat.add_mod_right]
                    exact Nat.mod_eq_of_lt (by omega)
                  rw [noteStyle_offset, hlenBlock] at h
                  have hpair := Option.some.inj h
                  have hr' : _ = r' := congrArg Prod.snd hpair
                  have hunread : r'.unread = r.buffer.drop (i + 1) := by
                    rw [<- hr']
                    show (r.noteStyle .crlf).buffer.drop
                      (r.offset + (i - r.offset) + 1) = _
                    rw [noteStyle_buffer, Nat.add_sub_cancel' hoff]
                  constructor
                  · intro hless
                    rw [<- Status.normal.inj (congrArg Prod.fst hpair)]
                    dsimp only
                    rw [noteStyle_buffer]
                    exact hblock hless rfl
                  · constructor
                    · rw [hunread, hdrop, hlf, <- hr']
                      rfl
                    · intro hlastCr
                      rw [<- hr'] at hlastCr
                      cases hlastCr
              case isFalse hcr =>
                  apply hloop (c := 10) _ _ _ _ _ h
                  · exact noteStyle_offset _ r
                  · exact (noteStyle_buffer _ r).trans hsame.symm
                  · exact (show (0 : Int) <= 10 by decide)
                  · rw [hlf]
                    rfl
          case isFalse hlf =>
              split at h
              case isTrue hcr =>
                  apply hloop (c := 10) _ _ _ _ _ h
                  · exact noteCr_offset r
                  · exact congrArg (fun l => List.set l i 10) (noteCr_buffer r)
                  · exact (show (0 : Int) <= 13 by decide)
                  · rw [hcr]
                    rfl
              case isFalse hcr =>
                  apply hloop (c := b) _ _ _ _ _ h
                  · exact noteCr_offset r
                  · exact (noteCr_buffer r).trans (set_of_getElem? hb).symm
                  · exact Int.natCast_nonneg _
                  · rw [beq_eq_false_iff_ne.mpr hcr]
                    apply beq_eq_false_iff_ne.mpr
                    intro heq
                    apply hcr
                    exact UInt8.toNat_inj.mp (Int.ofNat.inj heq)

/-- A block is empty if there is nothing to be read, or if it ends in front of
the line feed of a CRLF whose carriage return has been returned. -/
theorem convertLoop_empty {fuel : Nat} {r r' : Reader} {block : Bytes}
    (hlen : r.buffer.length < guintSize)
    (h : convertLoop fuel r r.offset = some (.normal block, r')) :
    (block = [] <-> r.buffer.drop r.offset = [] ∨
        r.cr = true ∧ (r.buffer.drop r.offset).head? = some 10) ∧
      (block = [] -> r'.unread = (r.buffer.drop r.offset).tail) := by
  cases fuel with
  | zero => cases h
  | succ fuel =>
      unfold convertLoop at h
      cases hb : r.buffer[r.offset]? with
      | none =>
          have hdrop : r.buffer.drop r.offset = [] :=
            List.drop_eq_nil_of_le (List.getElem?_eq_none_iff.mp hb)
          rw [hb] at h
          have hpair := Option.some.inj h
          have hblock : _ = block := Status.normal.inj (congrArg Prod.fst hpair)
          have hr' : _ = r' := congrArg Prod.snd hpair
          rw [hdrop, List.take_nil] at hblock
          rw [hdrop]
          constructor
          · constructor
            · intro _
              exact Or.inl rfl
            · intro _
              exact hblock.symm
          · intro _
            have hend := List.drop_eq_nil_iff.mp hdrop
            rw [<- hr']
            apply List.drop_eq_nil_of_le
            show r.buffer.length <= r.offset + (r.buffer.length - r.offset) + _
            omega
      | some b =>
          have hlt : r.offset < r.buffer.length :=
            (List.getElem?_eq_some_iff.mp hb).1
          have hnext : (r.offset + 1) % guintSize = r.offset + 1 :=
            Nat.mod_eq_of_lt (Nat.lt_of_le_of_lt hlt hlen)
          have hdrop := drop_of_getElem? hb
          -- Further bytes are in the block.
          have hloop (r₁ : Reader) (hskip : ¬(b = 10 ∧ r.lastChar = 13))
              (hoffset : r₁.offset = r.offset)
              (hlength : r₁.buffer.length = r.buffer.length)
              (hlast₁ : 0 <= r₁.lastChar)
              (h : convertLoop fuel r₁ (r.offset + 1) =
                some (.normal block, r')) :
              (block = [] <-> r.buffer.drop r.offset = [] ∨
                  r.cr = true ∧ (r.buffer.drop r.offset).head? = some 10) ∧
                (block = [] ->
                  r'.unread = (r.buffer.drop r.offset).tail) := by
            have hblock := (convertLoop_left (by rw [hlength]; exact hlen)
              (by rw [hoffset]; exact Nat.le_succ _)
              (by rw [hlength]; exact hlt) hlast₁ h).1
            have hne : block ≠ [] :=
              hblock (by rw [hoffset]; exact Nat.lt_succ_self _)
            rw [hdrop]
            constructor
            · constructor
              · intro hempty
                exact absurd hempty hne
              · intro hcase
                rcases hcase with hnil | ⟨hcr, hhead⟩
                · cases hnil
                · exact absurd ⟨Option.some.inj hhead, cr_eq_true.mp hcr⟩ hskip
            · intro hempty
              exact absurd hempty hne
          rw [hb] at h
          dsimp only at h
          rw [hnext] at h
          split at h
          case isTrue hlf =>
              split at h
              case isTrue hcr =>
                  have hpair := Option.some.inj h
                  have hblock : _ = block :=
                    Status.normal.inj (congrArg Prod.fst hpair)
                  have hr' : _ = r' := congrArg Prod.snd hpair
                  rw [noteStyle_offset, Nat.add_sub_cancel_left,
                    Nat.mod_self] at hblock hr'
                  rw [List.take_zero] at hblock
                  rw [hdrop]
                  constructor
                  · constructor
                    · intro _
                      exact Or.inr ⟨cr_eq_true.mpr hcr, congrArg some hlf⟩
                    · intro _
                      exact hblock.symm
                  · intro _
                    rw [<- hr']
                    show (r.noteStyle .crlf).buffer.drop (r.offset + 0 + 1) = _
                    rw [noteStyle_buffer]
                    rfl
              case isFalse hcr =>
                  apply hloop _ _ _ _ _ h
                  · exact fun hskip => hcr hskip.2
                  · exact noteStyle_offset _ r
                  · exact congrArg List.length (noteStyle_buffer _ r)
                  · exact (show (0 : Int) <= 10 by decide)
          case isFalse hlf =>
              split at h
              case isTrue =>
                  apply hloop _ _ _ _ _ h
                  · exact fun hskip => hlf hskip.1
                  · exact noteCr_offset r
                  · rw [List.length_set, noteCr_buffer]
                  · exact (show (0 : Int) <= 13 by decide)
              case isFalse =>
                  apply hloop _ _ _ _ _ h
                  · exact fun hskip => hlf hskip.1
                  · exact noteCr_offset r
                  · exact congrArg List.length (noteCr_buffer r)
                  · exact Int.natCast_nonneg _

theorem skipBlock_crFlag (r : Reader) : r.skipBlock.cr = r.cr := by
  rw [Bool.eq_iff_iff, cr_eq_true, cr_eq_true]
  exact skipBlock_cr r

/-- Another block of the bytes that have been read already is not empty. -/
theorem convert_unread_left {fuel : Nat} {r r' : Reader} {block : Bytes}
    (h : r.Ready) (hunread : r.nextOffset < r.buffer.length)
    (hcr : r.cr = false)
    (hrun : convert true fuel r = some (.normal block, r')) :
    block ≠ [] ∧ Left false r.unread r' := by
  have hoffset := skipBlock_offset h
  unfold convert at hrun
  dsimp only at hrun
  rw [if_pos (by rw [hoffset, skipBlock_buffer]; exact hunread)] at hrun
  have hlen : r.skipBlock.buffer.length < guintSize := by
    rw [skipBlock_buffer]
    exact h.length
  have hi : r.skipBlock.offset <= r.skipBlock.buffer.length := by
    rw [hoffset, skipBlock_buffer]
    exact h.nextOffset
  have hleft := (convertLoop_left hlen (Nat.le_refl _) hi
    (skipBlock_lastChar r) hrun).2
  rw [skipBlock_crFlag, hcr, skipBlock_buffer, hoffset] at hleft
  refine ⟨?_, hleft⟩
  intro hempty
  rcases (convertLoop_empty hlen hrun).1.mp hempty with hnil | hlf
  · rw [skipBlock_buffer, hoffset, List.drop_eq_nil_iff] at hnil
    exact Nat.not_lt.mpr hnil hunread
  · rw [skipBlock_crFlag, hcr] at hlf
    cases hlf.1

/-- The block that is made of the next bytes of the stream. -/
theorem convert_chunk_left {fuel : Nat} {r r' : Reader}
    {chunk block : Bytes} {source : List Read} (h : r.Ready)
    (hunread : r.buffer.length <= r.nextOffset)
    (hsource : r.source = .ok chunk :: source)
    (hchunk : chunk.length < guintSize)
    (hrun : convert true fuel r = some (.normal block, r')) :
    Left r.cr chunk r' ∧
      (block = [] <-> chunk = [] ∨ r.cr = true ∧ chunk.head? = some 10) ∧
      (block = [] -> r'.unread = chunk.tail) := by
  let r₁ : Reader :=
    { r.skipBlock with offset := 0, buffer := chunk, source := source }
  have hcr : r₁.cr = r.cr := skipBlock_crFlag r
  unfold convert at hrun
  dsimp only at hrun
  rw [skipBlock_offset h, skipBlock_buffer,
    if_neg (Nat.not_lt.mpr hunread), skipBlock_source, hsource] at hrun
  have hrun₁ : convertLoop fuel r₁ 0 = some (.normal block, r') := hrun
  have hleft := (convertLoop_left (r := r₁) hchunk (Nat.le_refl _)
    (Nat.zero_le _) (skipBlock_lastChar r) hrun₁).2
  have hempty := convertLoop_empty (r := r₁) hchunk hrun₁
  rw [hcr] at hleft hempty
  exact ⟨hleft, hempty⟩

end Reader

/-- The blocks returned for some chunks make up the normalized text, and the
reader knows the kinds of the line ends. -/
def ReadsNormalized (chunks : List Bytes) : Prop :=
  exists fuel r,
    Reader.convertAll true fuel (Reader.init (chunks.map Except.ok)) =
        some (.ok (LineEnd.normalize chunks.flatten), r) ∧
      r.eolStyle = (LineEnd.kinds chunks.flatten).head? ∧
      (r.eolStyleInconsistent = true <-> ¬LineEnd.Uniform chunks.flatten)

/-- The stream may be cut anywhere, as long as the counters do not wrap. -/
theorem readsNormalized_iff (chunks : List Bytes) :
    ReadsNormalized chunks <->
      forall chunk, chunk ∈ chunks -> chunk.length < guintSize := by
  constructor
  · intro h chunk hchunk
    rcases h with ⟨fuel, r, hrun, _⟩
    by_contra hlarge
    have hoversized : (Reader.init (chunks.map Except.ok)).Oversized :=
      Or.inr ⟨chunk, List.mem_map_of_mem hchunk, Nat.not_lt.mp hlarge⟩
    rw [Reader.convertAll_oversized rfl hoversized] at hrun
    cases hrun
  · intro hchunks
    rcases Reader.convertAll_reads (Reader.ready_init _) rfl hchunks
      (Nat.lt_succ_self _) with ⟨r, hrun, hstyles⟩
    refine ⟨_, r, hrun, ?_, ?_⟩
    · have hstyle := congrArg Prod.fst hstyles
      exact hstyle.trans (Reader.foldl_note_head _)
    · have hinconsistent := congrArg Prod.snd hstyles
      dsimp only at hinconsistent
      rw [hinconsistent]
      exact Reader.foldl_note_inconsistent _

/-- A buffer of 4 GiB in memory. -/
theorem not_readsNormalized_large :
    ¬ReadsNormalized [List.replicate guintSize 97] := by
  intro h
  rcases h with ⟨fuel, r, hrun, _⟩
  have hlarge : guintSize <= (List.replicate guintSize (97 : UInt8)).length :=
    Nat.le_of_eq List.length_replicate.symm
  have hoversized : (Reader.init
      ([List.replicate guintSize 97].map Except.ok)).Oversized :=
    Or.inr ⟨_, List.mem_singleton_self _, hlarge⟩
  rw [Reader.convertAll_oversized rfl hoversized] at hrun
  cases hrun

end Eol
end SciTECO
