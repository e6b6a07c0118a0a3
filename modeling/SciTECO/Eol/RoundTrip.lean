import SciTECO.Eol.Writer

/-!
# Saving and loading

`teco_view_save_to_channel()` writes the two parts of a document in front of
the gap of its buffer and behind it.  Files are read in the chunks that fit
into the buffer of the reader.
-/

namespace SciTECO
namespace Eol

/-- The text of a Scintilla document and the position of its gap.
`SCI_CREATEDOCUMENT` is sent without `SC_DOCUMENTOPTION_TEXT_LARGE`, so that
the text has less than 2 GiB. -/
structure Document where
  text : Bytes
  gap : Nat
  gap_le : gap <= text.length
  short : text.length < 2 ^ 31

namespace Document

theorem part_short {doc : Document} {part : Bytes}
    (h : part.length <= doc.text.length) : part.length < guintSize := by
  apply Nat.lt_of_le_of_lt h
  apply Nat.lt_trans doc.short
  decide

end Document

/-- Write a part of a document and assert that all of it has been written. -/
def savePart (autoEol : Bool) (fuel : Nat) (w : Writer) (sink : Sink)
    (part : Bytes) : Option (Except (TecoError ⊕ Fault) Writer × Sink) :=
  if part.length > 0 then
    match w.convert autoEol fuel sink part with
    | none => none
    | some (.error e, _, sink) => some (.error (.inl e), sink)
    | some (.ok n, w, sink) =>
        if n = part.length then
          some (.ok w, sink)
        else
          some (.error (.inr .assertion), sink)
  else
    some (.ok w, sink)

/-- `teco_view_save_to_channel()`. -/
def saveToChannel (autoEol : Bool) (fuel : Nat) (eolMode : LineEnd)
    (doc : Document) (sink : Sink) :
    Option (Except (TecoError ⊕ Fault) Writer × Sink) :=
  match savePart autoEol fuel (Writer.init eolMode) sink
    (doc.text.take doc.gap) with
  | some (.ok w, sink) =>
      savePart autoEol fuel w sink (doc.text.drop doc.gap)
  | outcome => outcome

/-- What a channel delivers, which is read into `gio.buffer`. -/
structure Stream where
  chunks : List Bytes
  fits : forall chunk, chunk ∈ chunks -> chunk.length <= 1024

namespace Stream

def bytes (stream : Stream) : Bytes := stream.chunks.flatten

/-- `teco_eol_reader_init_gio()`. -/
def reader (stream : Stream) : Reader :=
  Reader.init (stream.chunks.map Except.ok)

/-- The normalized text, with what the reader knows about the line ends. -/
theorem reads (stream : Stream) :
    exists fuel r, Reader.convertAll true fuel stream.reader =
          some (.ok (LineEnd.normalize stream.bytes), r) ∧
        r.eolStyle = (LineEnd.kinds stream.bytes).head? ∧
        (r.eolStyleInconsistent = true <->
          ¬LineEnd.Uniform stream.bytes) := by
  apply (readsNormalized_iff stream.chunks).mpr
  intro chunk hchunk
  apply Nat.lt_of_le_of_lt (stream.fits chunk hchunk)
  decide

end Stream

theorem savePart_accepting {fuel : Nat} {w : Writer} {part : Bytes}
    (output more : Bytes) (hlen : part.length < guintSize) (hw : w.writeLf = false)
    (hfuel : part.length < fuel) :
    exists w' output',
      savePart true fuel w { output := output, accepts := [] } part =
          some (.ok w', { output := output', accepts := [] }) ∧
        w'.writeLf = false ∧
        output' ++ w'.due more = output ++ w.due (part ++ more) := by
  unfold savePart
  split
  case isTrue =>
      rcases Writer.convert_accepting output more hlen hw hfuel
        with ⟨w', output', hrun, hw', houtput⟩
      rw [hrun]
      dsimp only
      rw [if_pos rfl]
      exact ⟨w', output', rfl, hw', houtput⟩
  case isFalse hempty =>
      have hnil : part = [] :=
        List.length_eq_zero_iff.mp (Nat.eq_zero_of_not_pos hempty)
      rw [hnil]
      exact ⟨w, output, rfl, hw, rfl⟩

/-- The gap does not show in a file. -/
theorem saveToChannel_accepting (mode : LineEnd) (doc : Document) :
    exists fuel w, saveToChannel true fuel mode doc
        { output := [], accepts := [] } =
      some (.ok w,
        { output := LineEnd.encode mode doc.text, accepts := [] }) := by
  have hbefore : (doc.text.take doc.gap).length <= doc.text.length :=
    List.length_take_le' _ _
  have hbehind : (doc.text.drop doc.gap).length <= doc.text.length := by
    rw [List.length_drop]
    exact Nat.sub_le _ _
  rcases savePart_accepting (w := Writer.init mode) [] (doc.text.drop doc.gap)
    (Document.part_short hbefore) rfl (Nat.lt_succ_of_le hbefore) with
    ⟨w₁, output₁, hrun₁, hw₁, houtput₁⟩
  rcases savePart_accepting (w := w₁) output₁ [] (Document.part_short hbehind) hw₁
    (Nat.lt_succ_of_le hbehind) with ⟨w₂, output₂, hrun₂, hw₂, houtput₂⟩
  refine ⟨doc.text.length + 1, w₂, ?_⟩
  unfold saveToChannel
  rw [hrun₁]
  dsimp only
  rw [hrun₂]
  have hall : output₂ = LineEnd.encode mode doc.text := calc
    output₂ = output₂ ++ w₂.due [] := by
        rw [Writer.due_done hw₂, List.append_nil]
    _ = output₁ ++ w₁.due (doc.text.drop doc.gap) := by
        rw [houtput₂, List.append_nil]
    _ = (Writer.init mode).due doc.text := by
        rw [houtput₁, List.take_append_drop]
        rfl
    _ = LineEnd.encode mode doc.text := rfl
  rw [hall]

/-- Any line end is one of the mode, after saving. -/
theorem head_kinds_encode {mode : LineEnd} {text : Bytes}
    (hcr : forall b, b ∈ text -> b ≠ 13) (hlf : (10 : UInt8) ∈ text) :
    (LineEnd.kinds (LineEnd.encode mode text)).head? = some mode := by
  have hkinds : LineEnd.kinds text ≠ [] := by
    clear hcr
    induction text using LineEnd.text_induction with
    | nil => cases hlf
    | cr rest _ =>
        rw [LineEnd.kinds_cr]
        exact List.cons_ne_nil _ _
    | lf rest _ =>
        rw [LineEnd.kinds_lf]
        exact List.cons_ne_nil _ _
    | other b rest hcr hb ih =>
        rw [LineEnd.kinds_other hcr hb]
        apply ih
        rcases List.mem_cons.mp hlf with heq | hmem
        · exact absurd heq.symm hb
        · exact hmem
  rw [LineEnd.kinds_encode mode hcr]
  cases hlist : LineEnd.kinds text with
  | nil => exact absurd hlist hkinds
  | cons kind kinds => rfl

theorem uniform_encode {mode : LineEnd} {text : Bytes}
    (hcr : forall b, b ∈ text -> b ≠ 13) :
    LineEnd.Uniform (LineEnd.encode mode text) := by
  have hmode (k : LineEnd) (hk : k ∈ LineEnd.kinds (LineEnd.encode mode text)) :
      k = mode := by
    rw [LineEnd.kinds_encode mode hcr] at hk
    rcases List.mem_map.mp hk with ⟨_, _, heq⟩
    exact heq.symm
  intro k hk l hl
  rw [hmode k hk, hmode l hl]

/-- A document without carriage returns is saved and read back, and a file with
line ends of one kind is read and saved in the mode that has been detected, or
in any mode if there was none to be detected. -/
theorem roundTrip :
    (forall (mode : LineEnd) (doc : Document),
      (forall b, b ∈ doc.text -> b ≠ 13) ->
        exists fuel w saved, saveToChannel true fuel mode doc
            { output := [], accepts := [] } =
              some (.ok w, { output := saved, accepts := [] }) ∧
          forall stream : Stream, stream.bytes = saved ->
            exists fuel r, Reader.convertAll true fuel stream.reader =
                some (.ok doc.text, r) ∧
              ((10 : UInt8) ∈ doc.text -> r.eolStyle = some mode) ∧
              r.eolStyleInconsistent = false) ∧
    (forall stream : Stream, LineEnd.Uniform stream.bytes ->
      exists fuel r text, Reader.convertAll true fuel stream.reader =
          some (.ok text, r) ∧
        forall (mode : LineEnd) (doc : Document), doc.text = text ->
          (forall style, r.eolStyle = some style -> mode = style) ->
          exists fuel w, saveToChannel true fuel mode doc
              { output := [], accepts := [] } =
            some (.ok w, { output := stream.bytes, accepts := [] })) := by
  constructor
  · intro mode doc hcr
    rcases saveToChannel_accepting mode doc with ⟨fuel, w, hsave⟩
    refine ⟨fuel, w, _, hsave, ?_⟩
    intro stream hbytes
    rcases stream.reads with ⟨fuel, r, hread, hstyle, hinconsistent⟩
    rw [hbytes] at hread hstyle hinconsistent
    rw [LineEnd.normalize_encode mode hcr] at hread
    refine ⟨fuel, r, hread, ?_, ?_⟩
    · intro hlf
      exact hstyle.trans (head_kinds_encode hcr hlf)
    · apply Bool.eq_false_iff.mpr
      intro h
      exact hinconsistent.mp h (uniform_encode hcr)
  · intro stream huniform
    rcases stream.reads with ⟨fuel, r, hread, hstyle, _⟩
    refine ⟨fuel, r, _, hread, ?_⟩
    intro mode doc htext hmode
    rcases saveToChannel_accepting mode doc with ⟨fuel, w, hsave⟩
    have hkinds : forall k, k ∈ LineEnd.kinds stream.bytes -> k = mode := by
      intro k hk
      cases hlist : LineEnd.kinds stream.bytes with
      | nil =>
          rw [hlist] at hk
          cases hk
      | cons style kinds =>
          rw [hlist] at hstyle
          rw [hmode style hstyle]
          apply huniform k hk
          rw [hlist]
          exact List.mem_cons_self
    rw [htext, LineEnd.encode_normalize hkinds] at hsave
    exact ⟨fuel, w, hsave⟩

/-- Two lines with the gap in front of the line end, in DOS mode, and a file
whose line end is split among two chunks. -/
theorem roundTrip_dos :
    (exists fuel w saved, saveToChannel true fuel .crlf
        ⟨[97, 10, 98], 1, by decide, by decide⟩
        { output := [], accepts := [] } =
          some (.ok w, { output := saved, accepts := [] }) ∧
      forall stream : Stream, stream.bytes = saved ->
        exists fuel r, Reader.convertAll true fuel stream.reader =
            some (.ok [97, 10, 98], r) ∧
          ((10 : UInt8) ∈ [(97 : UInt8), 10, 98] ->
            r.eolStyle = some .crlf) ∧
          r.eolStyleInconsistent = false) ∧
    (exists fuel r text, Reader.convertAll true fuel
        (Stream.mk [[97, 13], [10, 98]] (by decide)).reader =
          some (.ok text, r) ∧
      forall (mode : LineEnd) (doc : Document), doc.text = text ->
        (forall style, r.eolStyle = some style -> mode = style) ->
        exists fuel w, saveToChannel true fuel mode doc
            { output := [], accepts := [] } =
          some (.ok w, { output := [97, 13, 10, 98], accepts := [] })) := by
  constructor
  · apply roundTrip.1 .crlf ⟨[97, 10, 98], 1, by decide, by decide⟩
    intro b hb hcr
    rw [hcr] at hb
    revert hb
    decide
  · apply roundTrip.2 (Stream.mk [[97, 13], [10, 98]] (by decide))
    unfold LineEnd.Uniform
    decide

end Eol
end SciTECO
