import SciTECO.Eol.Reader

/-!
# The EOL writer

`teco_eol_writer_t` passes a text on to a sink and replaces its line ends.  The
sink may accept less than it is offered.  The caller then goes on behind the
bytes which have been consumed.
-/

namespace SciTECO
namespace Eol

/-- What is behind `write_cb`.  `accepts` tells how many bytes the next writes
accept at most, or the error in which they end.  Later ones accept
everything. -/
structure Sink where
  output : Bytes
  accepts : List (Except TecoError Nat)
deriving DecidableEq

/-- `write_cb`. -/
def Sink.write (sink : Sink) (data : Bytes) : Except TecoError Nat × Sink :=
  match sink.accepts with
  | [] => (.ok data.length, { sink with output := sink.output ++ data })
  | .ok limit :: accepts =>
      (.ok (min limit data.length),
        { output := sink.output ++ data.take limit, accepts := accepts })
  | .error e :: accepts => (.error e, { sink with accepts := accepts })

/-- `teco_eol_writer_t`.  `writeLf` is the state `TECO_EOL_STATE_WRITE_LF`. -/
structure Writer where
  writeLf : Bool
  lastC : UInt8
  eolMode : LineEnd
deriving DecidableEq

namespace Writer

/-- `teco_eol_writer_init()`. -/
def init (eolMode : LineEnd) : Writer :=
  { writeLf := false, lastC := 0, eolMode := eolMode }

abbrev Result : Type := Except TecoError Nat × Writer × Sink

/-- The loop of `teco_eol_writer_convert()`. -/
def convertLoop (buffer : Bytes) :
    Nat -> Writer -> Sink -> (i blockStart bytesWritten : Nat) -> Option Result
  | 0, _, _, _, _, _ => none
  | fuel + 1, w, sink, i, blockStart, bytesWritten =>
      match buffer[i]? with
      | none =>
          let (rc, sink) := sink.write (buffer.drop blockStart)
          some (rc.map (fun n => bytesWritten + n), w, sink)
      | some c =>
          let next := (i + 1) % guintSize
          if c = 10 ∧ w.lastC = 13 then
            -- EOL sequence already written
            convertLoop buffer fuel { w with lastC := c } sink next next
              (bytesWritten + 1)
          else if c = 10 ∨ c = 13 then
            let block := (buffer.drop blockStart).take
              ((i + guintSize - blockStart) % guintSize)
            match sink.write block with
            | (.error e, sink) => some (.error e, w, sink)
            | (.ok n, sink) =>
                if n < block.length then
                  some (.ok (bytesWritten + n), w, sink)
                else
                  match sink.write w.eolMode.seq with
                  | (.error e, sink) => some (.error e, w, sink)
                  | (.ok m, sink) =>
                      if m = 0 then
                        some (.ok (bytesWritten + n), w, sink)
                      else if m < w.eolMode.seq.length then
                        -- we have written CR of CRLF
                        some (.ok (bytesWritten + n),
                          { w with writeLf := true }, sink)
                      else
                        convertLoop buffer fuel { w with lastC := c } sink
                          next next (bytesWritten + n + 1)
          else
            convertLoop buffer fuel { w with lastC := c } sink next blockStart
              bytesWritten

/-- `teco_eol_writer_convert()`.  The result is the number of bytes consumed
from the buffer. -/
def convert (autoEol : Bool) (fuel : Nat) (w : Writer) (sink : Sink)
    (buffer : Bytes) : Option Result :=
  if autoEol = false then
    let (rc, sink) := sink.write buffer
    some (rc, w, sink)
  else if w.writeLf then
    -- complete writing a CRLF sequence
    match sink.write [10] with
    | (.error e, sink) => some (.error e, w, sink)
    | (.ok n, sink) =>
        if n < 1 then
          some (.ok n, w, sink)
        else
          convertLoop buffer fuel { w with writeLf := false } sink 1 1 1
  else
    convertLoop buffer fuel w sink 0 0 0

/-!
## What remains to be written
-/

/-- What the sink is still due for the bytes to come, if every line end is
written exactly once. -/
def due (w : Writer) (bytes : Bytes) : Bytes :=
  if w.writeLf then
    (LineEnd.encode w.eolMode bytes).tail
  else
    LineEnd.encode w.eolMode
      (if w.lastC = 13 then LineEnd.dropLf bytes else bytes)

/-- Half of a line end has been written. -/
structure Halfway (w : Writer) (bytes : Bytes) : Prop where
  eolMode : w.eolMode = LineEnd.crlf
  head : exists c rest, bytes = c :: rest ∧ (c = 13 ∨ c = 10 ∧ w.lastC ≠ 13)

/-- The state belongs to the bytes to come. -/
def Fits (w : Writer) (bytes : Bytes) : Prop :=
  w.writeLf = true -> w.Halfway bytes

theorem write_output {sink sink' : Sink} {data : Bytes} {n : Nat}
    (h : sink.write data = (.ok n, sink')) :
    n <= data.length ∧ sink'.output = sink.output ++ data.take n := by
  unfold Sink.write at h
  split at h
  case h_1 =>
      cases h
      exact ⟨Nat.le_refl _, by rw [List.take_length]⟩
  case h_2 limit accepts _ =>
      cases h
      refine ⟨Nat.min_le_right _ _, ?_⟩
      rw [List.take_eq_take_min]
  case h_3 => cases h

/-- Bytes which end no line. -/
def Plain (block : Bytes) : Prop :=
  forall b, b ∈ block -> b ≠ 13 ∧ b ≠ 10

theorem due_start {w : Writer} (hw : w.writeLf = false) (bytes : Bytes) :
    w.due bytes = LineEnd.encode w.eolMode
      (if w.lastC = 13 then LineEnd.dropLf bytes else bytes) := by
  unfold due
  rw [hw]
  rfl

/-- In front of anything but a line feed it does not matter what was last. -/
theorem due_head {w : Writer} {c : UInt8} {bytes : Bytes}
    (hw : w.writeLf = false) (hc : ¬(c = 10 ∧ w.lastC = 13)) :
    w.due (c :: bytes) = LineEnd.encode w.eolMode (c :: bytes) := by
  rw [due_start hw]
  split
  case isTrue hlast =>
      rw [LineEnd.dropLf_cons (fun hlf => hc ⟨hlf, hlast⟩)]
  case isFalse => rfl

theorem due_lastC {w : Writer} {bytes : Bytes} (c : UInt8)
    (hw : w.writeLf = false) (hbytes : bytes.head? ≠ some 10) :
    { w with lastC := c }.due bytes = w.due bytes := by
  rw [due_start hw, due_start (w := { w with lastC := c }) hw,
    LineEnd.dropLf_of_head hbytes, ite_self, ite_self]

theorem due_plain {w : Writer} {block bytes : Bytes} (hw : w.writeLf = false)
    (hblock : Plain block) (hlast : block ≠ [] -> w.lastC ≠ 13) :
    w.due (block ++ bytes) = block ++ w.due bytes := by
  cases block with
  | nil => rfl
  | cons b block =>
      have hcr : w.lastC ≠ 13 := hlast (by simp)
      rw [due_start hw, due_start hw, if_neg hcr, if_neg hcr]
      exact LineEnd.encode_append_plain _ hblock bytes

/-- A call has consumed `n` bytes, when `bytes` were left to be consumed and
the sink was to have `owed` in the end. -/
structure Sent (bytes owed : Bytes) (w' : Writer) (sink' : Sink) (n : Nat) :
    Prop where
  fits : w'.Fits (bytes.drop n)
  output : sink'.output ++ w'.due (bytes.drop n) = owed

/-- Some bytes of a block have been written. -/
theorem sent_block {bytes block rest : Bytes} {w : Writer}
    {sink sink' : Sink} {start k : Nat} (hw : w.writeLf = false)
    (hbytes : bytes.drop start = block ++ rest) (hblock : Plain block)
    (hlast : block ≠ [] -> w.lastC ≠ 13)
    (hwrite : sink.write block = (.ok k, sink')) :
    Sent bytes (sink.output ++ w.due (bytes.drop start)) w sink'
      (start + k) := by
  rcases write_output hwrite with ⟨hk, houtput⟩
  have hrest : bytes.drop (start + k) = block.drop k ++ rest := by
    rw [<- List.drop_drop, hbytes, List.drop_append_of_le_length hk]
  constructor
  · intro h
    rw [hw] at h
    cases h
  · have hplain : Plain (block.take k) := by
      intro b hb
      exact hblock b (List.mem_of_mem_take hb)
    have hfirst : block.take k ≠ [] -> w.lastC ≠ 13 := by
      intro hne
      apply hlast
      intro hnil
      rw [hnil, List.take_nil] at hne
      exact hne rfl
    have hsplit : w.due (block ++ rest) =
        block.take k ++ w.due (block.drop k ++ rest) := by
      rw [<- due_plain hw hplain hfirst, <- List.append_assoc,
        List.take_append_drop]
    rw [hrest, houtput, hbytes, hsplit, List.append_assoc]

/-- Only a line end of two bytes can be cut. -/
theorem seq_cut {mode : LineEnd} {m : Nat} (hm : m ≠ 0)
    (hcut : m < mode.seq.length) : mode = LineEnd.crlf ∧ m = 1 := by
  cases mode with
  | crlf =>
      have hlength : LineEnd.crlf.seq.length = 2 := rfl
      exact ⟨rfl, by omega⟩
  | cr =>
      have hlength : LineEnd.cr.seq.length = 1 := rfl
      omega
  | lf =>
      have hlength : LineEnd.lf.seq.length = 1 := rfl
      omega

/-- What a line end leaves to be written. -/
theorem encode_lineEnd (w : Writer) {c : UInt8} (hc : c = 10 ∨ c = 13)
    (hw : w.writeLf = false) (rest : Bytes) :
    LineEnd.encode w.eolMode (c :: rest) =
      w.eolMode.seq ++ { w with lastC := c }.due rest := by
  rw [due_start (w := { w with lastC := c }) hw]
  rcases hc with hc | hc
  · subst hc
    exact LineEnd.encode_lf _ rest
  · subst hc
    exact LineEnd.encode_cr _ rest

/-- The line end itself, in front of which everything has been written. -/
theorem convertLoop_lineEnd {bytes rest owed : Bytes} {w w' : Writer}
    {sink₁ sink' : Sink} {c : UInt8} {i n : Nat}
    {loop : Sink -> Option Result} (hw : w.writeLf = false)
    (hc : c = 10 ∨ c = 13) (hskip : ¬(c = 10 ∧ w.lastC = 13))
    (hdrop : bytes.drop i = c :: rest) (hsent : Sent bytes owed w sink₁ i)
    (hline : forall {sink₂ : Sink},
      sink₂.output ++ { w with lastC := c }.due rest = owed ->
      loop sink₂ = some (.ok n, w', sink') -> Sent bytes owed w' sink' n)
    (hrun : (match sink₁.write w.eolMode.seq with
      | (.error e, sink₂) => some (.error e, w, sink₂)
      | (.ok m, sink₂) =>
          if m = 0 then
            some (.ok i, w, sink₂)
          else if m < w.eolMode.seq.length then
            some (.ok i, { w with writeLf := true }, sink₂)
          else
            loop sink₂) = some (.ok n, w', sink')) :
    Sent bytes owed w' sink' n := by
  have howed : sink₁.output ++ LineEnd.encode w.eolMode (c :: rest) = owed := by
    rw [<- due_head hw hskip, <- hdrop]
    exact hsent.output
  cases hwrite : sink₁.write w.eolMode.seq with
  | mk rc sink₂ =>
      rw [hwrite] at hrun
      cases rc with
      | error e => cases hrun
      | ok m =>
          rcases write_output hwrite with ⟨hm, houtput⟩
          dsimp only at hrun
          split at hrun
          case isTrue hzero =>
              cases hrun
              constructor
              · exact hsent.fits
              · rw [houtput, hzero, List.take_zero, List.append_nil]
                exact hsent.output
          case isFalse hzero =>
              split at hrun
              case isTrue hcut =>
                  cases hrun
                  rcases seq_cut hzero hcut with ⟨hmode, hone⟩
                  constructor
                  · intro _
                    refine ⟨hmode, c, rest, hdrop, ?_⟩
                    rcases hc with hc | hc
                    · exact Or.inr ⟨hc, fun h => hskip ⟨hc, h⟩⟩
                    · exact Or.inl hc
                  · rw [hdrop, <- howed, houtput, List.append_assoc]
                    congr 1
                    show w.eolMode.seq.take m ++
                      (LineEnd.encode w.eolMode (c :: rest)).tail = _
                    rw [encode_lineEnd w hc hw, hmode, hone]
                    rfl
              case isFalse hcut =>
                  have hall : w.eolMode.seq.take m = w.eolMode.seq :=
                    List.take_of_length_le (Nat.not_lt.mp hcut)
                  apply hline _ hrun
                  rw [houtput, hall, List.append_assoc,
                    <- encode_lineEnd w hc hw]
                  exact howed

/-- The loop writes every line end once, and it ends in a state which knows
what has been written. -/
theorem convertLoop_sent {buffer more : Bytes} {fuel : Nat} {w w' : Writer}
    {sink sink' : Sink} {i start n : Nat}
    (hlen : buffer.length < guintSize) (hw : w.writeLf = false)
    (hstart : start <= i) (hi : i <= buffer.length)
    (hplain : Plain ((buffer.drop start).take (i - start)))
    (hlast : start < i -> w.lastC ≠ 13)
    (hrun : convertLoop buffer fuel w sink i start start =
      some (.ok n, w', sink')) :
    Sent (buffer ++ more)
      (sink.output ++ w.due ((buffer ++ more).drop start)) w' sink' n := by
  induction fuel generalizing w sink i start with
  | zero => cases hrun
  | succ fuel ih =>
      have hsplit : (buffer ++ more).drop start =
          (buffer.drop start).take (i - start) ++ (buffer ++ more).drop i := by
        rw [List.drop_append_of_le_length (Nat.le_trans hstart hi),
          List.drop_append_of_le_length hi, <- List.append_assoc]
        congr 1
        rw [show buffer.drop i = (buffer.drop start).drop (i - start) by
          rw [List.drop_drop, Nat.add_sub_cancel' hstart]]
        rw [List.take_append_drop]
      have hlastBlock : (buffer.drop start).take (i - start) ≠ [] ->
          w.lastC ≠ 13 := by
        intro hne
        apply hlast
        apply Nat.lt_of_le_of_ne hstart
        intro heq
        rw [heq, Nat.sub_self, List.take_zero] at hne
        exact hne rfl
      -- The bytes up to the next line end.
      have hshort {block : Bytes} {k : Nat} {sink₁ : Sink}
          (hblock : block = (buffer.drop start).take (i - start))
          (hwrite : sink.write block = (.ok k, sink₁)) :
          Sent (buffer ++ more)
            (sink.output ++ w.due ((buffer ++ more).drop start)) w sink₁
            (start + k) := by
        subst hblock
        exact sent_block hw hsplit hplain hlastBlock hwrite
      unfold convertLoop at hrun
      split at hrun
      case h_1 hb =>
          have hend : i = buffer.length :=
            Nat.le_antisymm hi (List.getElem?_eq_none_iff.mp hb)
          cases hwrite : sink.write (buffer.drop start) with
          | mk rc sink₁ =>
              rw [hwrite] at hrun
              cases rc with
              | error e => cases hrun
              | ok k =>
                  cases hrun
                  apply hshort _ hwrite
                  rw [hend, <- List.length_drop, List.take_length]
      case h_2 c hb =>
          have hlt : i < buffer.length := (List.getElem?_eq_some_iff.mp hb).1
          have hnext : (i + 1) % guintSize = i + 1 :=
            Nat.mod_eq_of_lt (Nat.lt_of_le_of_lt hlt hlen)
          have hdrop : (buffer ++ more).drop i =
              c :: (buffer ++ more).drop (i + 1) := by
            apply Reader.drop_of_getElem?
            rw [List.getElem?_append_left hlt]
            exact hb
          -- The loop goes on behind a line end.
          have hline {sink₁ : Sink}
              (houtput : sink₁.output ++
                  { w with lastC := c }.due ((buffer ++ more).drop (i + 1)) =
                sink.output ++ w.due ((buffer ++ more).drop start))
              (h : convertLoop buffer fuel { w with lastC := c } sink₁ (i + 1)
                (i + 1) (i + 1) = some (.ok n, w', sink')) :
              Sent (buffer ++ more)
                (sink.output ++ w.due ((buffer ++ more).drop start)) w' sink'
                n := by
            rw [<- houtput]
            apply ih (w := { w with lastC := c }) hw (Nat.le_refl _) hlt _ _ h
            · rw [Nat.sub_self, List.take_zero]
              intro b hb
              cases hb
            · intro h
              exact absurd h (Nat.lt_irrefl _)
          dsimp only at hrun
          rw [hnext] at hrun
          split at hrun
          case isTrue hskip =>
              have hsame : start = i := by
                apply Nat.le_antisymm hstart
                apply Nat.not_lt.mp
                intro h
                exact hlast h hskip.2
              subst hsame
              apply hline _ hrun
              rw [hdrop, hskip.1, due_start hw, if_pos hskip.2,
                LineEnd.dropLf_lf, due_start (w := { w with lastC := 10 }) hw]
              rfl
          case isFalse hskip =>
              split at hrun
              case isTrue hc =>
                  have hblock : (i + guintSize - start) % guintSize =
                      i - start := by
                    rw [Nat.sub_add_comm hstart, Nat.add_mod_right]
                    exact Nat.mod_eq_of_lt (by omega)
                  rw [hblock] at hrun
                  cases hwrite : sink.write
                      ((buffer.drop start).take (i - start)) with
                  | mk rc sink₁ =>
                      rw [hwrite] at hrun
                      cases rc with
                      | error e => cases hrun
                      | ok k =>
                          have hsent := hshort rfl hwrite
                          dsimp only at hrun
                          split at hrun
                          case isTrue =>
                              cases hrun
                              exact hsent
                          case isFalse hfull =>
                              have hk : start + k = i := by
                                have hle := (write_output hwrite).1
                                rw [List.length_take, List.length_drop]
                                  at hfull hle
                                omega
                              rw [hk] at hrun hsent
                              exact convertLoop_lineEnd hw hc hskip hdrop
                                hsent hline hrun
              case isFalse hc =>
                  have hcPlain : c ≠ 13 ∧ c ≠ 10 :=
                    ⟨fun h => hc (Or.inr h), fun h => hc (Or.inl h)⟩
                  have hhead : ((buffer ++ more).drop start).head? ≠
                      some 10 := by
                    rw [hsplit, hdrop]
                    cases hblock : (buffer.drop start).take (i - start) with
                    | nil => exact fun h => hcPlain.2 (Option.some.inj h)
                    | cons b block =>
                        have hb : b ≠ 10 :=
                          (hplain b (by rw [hblock]; simp)).2
                        exact fun h => hb (Option.some.inj h)
                  rw [<- due_lastC c hw hhead]
                  apply ih (w := { w with lastC := c }) hw
                    (Nat.le_succ_of_le hstart) hlt _ _ hrun
                  · rw [Reader.slice_succ hstart hb]
                    intro b hmem
                    rcases List.mem_append.mp hmem with hmem | hmem
                    · exact hplain b hmem
                    · rw [List.mem_singleton.mp hmem]
                      exact hcPlain
                  · intro _
                    exact hcPlain.1

/-!
## Resuming
-/

/-- The rest of a line end is to be written for a carriage return in front of a
line feed, which will be taken for another line end. -/
def Stale (w : Writer) (bytes : Bytes) : Prop :=
  w.writeLf = true ∧ w.lastC ≠ 13 ∧
    exists rest, bytes = 13 :: 10 :: rest

/-- The line end is complete. -/
theorem due_resume {w : Writer} {bytes : Bytes} (h : w.Halfway bytes)
    (hw : w.writeLf = true) (hstale : ¬w.Stale bytes) :
    10 :: { w with writeLf := false }.due (bytes.drop 1) = w.due bytes := by
  rcases h.head with ⟨c, rest, hbytes, hc⟩
  have hdue : w.due bytes = (LineEnd.encode w.eolMode (c :: rest)).tail := by
    unfold due
    rw [if_pos hw, hbytes]
  rw [hdue, hbytes, due_start (w := { w with writeLf := false }) rfl, h.eolMode]
  show 10 :: LineEnd.encode LineEnd.crlf
    (if w.lastC = 13 then LineEnd.dropLf rest else rest) = _
  rcases hc with hc | ⟨hc, hlast⟩
  · subst hc
    rw [LineEnd.encode_cr]
    show _ = 10 :: LineEnd.encode LineEnd.crlf (LineEnd.dropLf rest)
    by_cases hlast : w.lastC = 13
    · rw [if_pos hlast]
    · rw [if_neg hlast, LineEnd.dropLf_of_head]
      intro hhead
      cases rest with
      | nil => cases hhead
      | cons b rest =>
          rw [Option.some.inj hhead] at hbytes
          exact hstale ⟨hw, hlast, rest, hbytes⟩
  · subst hc
    rw [if_neg hlast, LineEnd.encode_lf]
    rfl

/-- A line end is going to be written twice. -/
theorem due_stale {w : Writer} {bytes : Bytes} (h : w.Halfway bytes)
    (hstale : w.Stale bytes) :
    (w.due bytes).length <
      (10 :: { w with writeLf := false }.due (bytes.drop 1)).length := by
  rcases hstale with ⟨hw, hlast, rest, hbytes⟩
  have hdue : w.due bytes =
      (LineEnd.encode LineEnd.crlf (13 :: 10 :: rest)).tail := by
    unfold due
    rw [if_pos hw, hbytes, h.eolMode]
  rw [hdue, hbytes, due_start (w := { w with writeLf := false }) rfl]
  show _ < (10 :: LineEnd.encode w.eolMode
    (if w.lastC = 13 then LineEnd.dropLf (10 :: rest) else 10 :: rest)).length
  rw [h.eolMode, if_neg hlast, LineEnd.encode_cr, LineEnd.dropLf_lf,
    LineEnd.encode_lf]
  simp only [LineEnd.seq, List.cons_append, List.nil_append, List.tail_cons,
    List.length_cons]
  omega

/-- One call. -/
theorem convert_sent {piece : Bytes} (more : Bytes) {fuel n : Nat}
    {w w' : Writer} {sink sink' : Sink} (hlen : piece.length < guintSize) (hne : piece ≠ [])
    (hfits : w.Fits (piece ++ more))
    (hrun : convert true fuel w sink piece = some (.ok n, w', sink')) :
    exists owed, Sent (piece ++ more) owed w' sink' n ∧
      (owed = sink.output ++ w.due (piece ++ more) ∧
          (w.Stale (piece ++ more) -> w' = w ∧ n = 0) ∨
        w.Stale (piece ++ more) ∧
          (sink.output ++ w.due (piece ++ more)).length < owed.length) := by
  unfold convert at hrun
  rw [if_neg (by decide)] at hrun
  split at hrun
  case isTrue hw =>
      have hhalfway := hfits hw
      cases hwrite : sink.write [10] with
      | mk rc sink₁ =>
          rw [hwrite] at hrun
          cases rc with
          | error e => cases hrun
          | ok k =>
              rcases write_output hwrite with ⟨hk, houtput⟩
              dsimp only at hrun
              split at hrun
              case isTrue hzero =>
                  cases hrun
                  have hnone : n = 0 := Nat.lt_one_iff.mp hzero
                  subst hnone
                  refine ⟨_, ⟨hfits, ?_⟩, Or.inl ⟨rfl, fun _ => ⟨rfl, rfl⟩⟩⟩
                  rw [houtput, List.take_zero, List.append_nil]
                  rfl
              case isFalse hzero =>
                  have hlf : [(10 : UInt8)].take k = [10] :=
                    List.take_of_length_le (Nat.not_lt.mp hzero)
                  rw [hlf] at houtput
                  have hpositive : 1 <= piece.length :=
                    List.length_pos_iff.mpr hne
                  have hnone : Plain ((piece.drop 1).take (1 - 1)) := by
                    intro b hb
                    cases hb
                  have hsent : Sent (piece ++ more) _ w' sink' n :=
                    convertLoop_sent (w := { w with writeLf := false }) hlen
                      rfl (Nat.le_refl 1) hpositive hnone
                      (fun h => absurd h (Nat.lt_irrefl 1)) hrun
                  rw [houtput, List.append_assoc] at hsent
                  refine ⟨_, hsent, ?_⟩
                  by_cases hstale : w.Stale (piece ++ more)
                  · apply Or.inr
                    refine ⟨hstale, ?_⟩
                    have hless := due_stale hhalfway hstale
                    rw [List.length_append, List.length_append]
                    exact Nat.add_lt_add_left hless _
                  · apply Or.inl
                    refine ⟨?_, fun h => absurd h hstale⟩
                    rw [<- due_resume hhalfway hw hstale]
                    rfl
  case isFalse hw =>
      have hstart : w.writeLf = false := Bool.eq_false_iff.mpr hw
      refine ⟨_, convertLoop_sent hlen hstart (Nat.le_refl 0) (Nat.zero_le _)
        ?_ (fun h => absurd h (Nat.lt_irrefl 0)) hrun, Or.inl ⟨rfl, ?_⟩⟩
      · rw [Nat.sub_self, List.take_zero]
        intro b hb
        cases hb
      · intro hstale
        exact absurd hstale.1 hw

/-!
## A sink which accepts everything
-/

theorem write_accepting (output data : Bytes) :
    Sink.write { output := output, accepts := [] } data =
      (.ok data.length, { output := output ++ data, accepts := [] }) := rfl

/-- Everything is consumed. -/
theorem convertLoop_accepting {buffer : Bytes} {fuel : Nat} {w : Writer}
    (output : Bytes) {i start : Nat} (hlen : buffer.length < guintSize)
    (hw : w.writeLf = false)
    (hstart : start <= i) (hi : i <= buffer.length)
    (hlast : start < i -> w.lastC ≠ 13) (hfuel : buffer.length < fuel + i) :
    exists w' output', convertLoop buffer fuel w
        { output := output, accepts := [] } i start start =
          some (.ok buffer.length, w', { output := output', accepts := [] }) ∧
        w'.writeLf = false := by
  induction fuel generalizing w output i start with
  | zero => omega
  | succ fuel ih =>
      unfold convertLoop
      split
      case h_1 hb =>
          have hall : start + (buffer.drop start).length = buffer.length := by
            rw [List.length_drop]
            exact Nat.add_sub_cancel' (Nat.le_trans hstart hi)
          rw [write_accepting]
          dsimp only [Except.map]
          rw [hall]
          exact ⟨w, _, rfl, hw⟩
      case h_2 c hb =>
          have hlt : i < buffer.length := (List.getElem?_eq_some_iff.mp hb).1
          have hnext : (i + 1) % guintSize = i + 1 :=
            Nat.mod_eq_of_lt (Nat.lt_of_le_of_lt hlt hlen)
          have hmore : buffer.length < fuel + (i + 1) := by omega
          have hnone : i + 1 < i + 1 -> c ≠ 13 :=
            fun h => absurd h (Nat.lt_irrefl _)
          dsimp only
          rw [hnext]
          split
          case isTrue hskip =>
              have hsame : start = i := by
                apply Nat.le_antisymm hstart
                apply Nat.not_lt.mp
                intro h
                exact hlast h hskip.2
              rw [hsame]
              exact ih (w := { w with lastC := c }) _ hw (Nat.le_refl _)
                hlt hnone hmore
          case isFalse =>
              split
              case isTrue hc =>
                  have hblock : (i + guintSize - start) % guintSize =
                      i - start := by
                    rw [Nat.sub_add_comm hstart, Nat.add_mod_right]
                    exact Nat.mod_eq_of_lt (by omega)
                  have hall : start +
                      ((buffer.drop start).take (i - start)).length = i := by
                    rw [List.length_take, List.length_drop]
                    omega
                  have hseq : w.eolMode.seq.length ≠ 0 := by
                    cases w.eolMode <;> decide
                  rw [hblock, write_accepting]
                  dsimp only
                  rw [if_neg (Nat.lt_irrefl _), write_accepting]
                  dsimp only
                  rw [if_neg hseq, if_neg (Nat.lt_irrefl _), hall]
                  exact ih (w := { w with lastC := c }) _ hw (Nat.le_refl _)
                    hlt hnone hmore
              case isFalse hc =>
                  exact ih (w := { w with lastC := c }) _ hw
                    (Nat.le_succ_of_le hstart) hlt
                    (fun _ h => hc (Or.inr h)) hmore

/-- The counter never gets to the end of a large buffer. -/
theorem convertLoop_oversized {buffer : Bytes} {fuel : Nat} {w : Writer}
    {output : Bytes} {i start n : Nat} (hlen : guintSize <= buffer.length)
    (hi : i < guintSize) : convertLoop buffer fuel w
      { output := output, accepts := [] } i start n = none := by
  induction fuel generalizing w output i start n with
  | zero => rfl
  | succ fuel ih =>
      have hnext : (i + 1) % guintSize < guintSize :=
        Nat.mod_lt _ (Nat.two_pow_pos 32)
      have hlt : i < buffer.length := Nat.lt_of_lt_of_le hi hlen
      unfold convertLoop
      rw [List.getElem?_eq_getElem hlt]
      dsimp only
      split
      case isTrue => exact ih hnext
      case isFalse =>
          split
          case isTrue =>
              have hseq : w.eolMode.seq.length ≠ 0 := by
                cases w.eolMode <;> decide
              rw [write_accepting]
              dsimp only
              rw [if_neg (Nat.lt_irrefl _), write_accepting]
              dsimp only
              rw [if_neg hseq, if_neg (Nat.lt_irrefl _)]
              exact ih hnext
          case isFalse => exact ih hnext

/-- Everything that ends in front of `more` gets written. -/
theorem convert_accepting {fuel : Nat} {w : Writer} {piece : Bytes}
    (output more : Bytes) (hlen : piece.length < guintSize) (hw : w.writeLf = false)
    (hfuel : piece.length < fuel) :
    exists w' output', convert true fuel w { output := output, accepts := [] }
          piece = some (.ok piece.length, w',
            { output := output', accepts := [] }) ∧
        w'.writeLf = false ∧
        output' ++ w'.due more = output ++ w.due (piece ++ more) := by
  have hnone : Plain ((piece.drop 0).take (0 - 0)) := by
    intro b hb
    cases hb
  have hlast : 0 < 0 -> w.lastC ≠ 13 := fun h => absurd h (Nat.lt_irrefl 0)
  rcases convertLoop_accepting output hlen hw (Nat.le_refl 0)
    (Nat.zero_le _) hlast hfuel with ⟨w', output', hrun, hw'⟩
  have hsent : Sent (piece ++ more) (output ++ w.due (piece ++ more)) w'
      { output := output', accepts := [] } piece.length :=
    convertLoop_sent hlen hw (Nat.le_refl 0) (Nat.zero_le _) hnone hlast hrun
  refine ⟨w', output', ?_, hw', ?_⟩
  · unfold convert
    rw [if_neg (by decide), if_neg (by rw [hw]; decide)]
    exact hrun
  · have houtput := hsent.output
    rw [List.drop_left] at houtput
    exact houtput

theorem due_done {w : Writer} (hw : w.writeLf = false) : w.due [] = [] := by
  rw [due_start hw, LineEnd.dropLf_nil, ite_self]
  rfl

/-- Write a text to a sink that accepts everything at once. -/
def writeAll (fuel : Nat) (mode : LineEnd) (text : Bytes) : Option Bytes :=
  match convert true fuel (init mode) { output := [], accepts := [] } text with
  | some (.ok _, _, sink) => some sink.output
  | _ => none

/-- Every line end becomes the one of the mode. -/
theorem writeAll_eq {fuel : Nat} (mode : LineEnd) {text : Bytes}
    (hlen : text.length < guintSize) (hfuel : text.length < fuel) :
    writeAll fuel mode text = some (LineEnd.encode mode text) := by
  rcases convert_accepting (w := init mode) [] [] hlen rfl hfuel with ⟨w, output, hrun, hw, houtput⟩
  rw [due_done hw, List.append_nil, List.append_nil] at houtput
  unfold writeAll
  rw [hrun, houtput]
  rfl

theorem writeAll_oversized {fuel : Nat} {mode : LineEnd} {text : Bytes}
    (hlen : guintSize <= text.length) : writeAll fuel mode text = none := by
  have hconvert : convert true fuel (init mode)
      { output := [], accepts := [] } text = none :=
    convertLoop_oversized hlen (Nat.two_pow_pos 32)
  unfold writeAll
  rw [hconvert]

end Writer

/-!
## Runs
-/

/-- A writer in the middle of a text, of which `rest` has not been consumed. -/
structure Config where
  writer : Writer
  sink : Sink
  rest : Bytes

namespace Config

def start (mode : LineEnd) (accepts : List (Except TecoError Nat))
    (text : Bytes) : Config :=
  { writer := Writer.init mode
    sink := { output := [], accepts := accepts }
    rest := text }

def Stale (c : Config) : Prop := c.writer.Stale c.rest

def Fits (c : Config) : Prop := c.writer.Fits c.rest

/-- The contents of the sink, with what it is still due. -/
def owed (c : Config) : Bytes := c.sink.output ++ c.writer.due c.rest

/-- The caller passes some of the bytes that have not been consumed. -/
inductive Call (c : Config) : Config -> Prop where
  | intro (len fuel n : Nat) (w : Writer) (sink : Sink)
      (hpiece : c.rest.take len ≠ [])
      (hrun : c.writer.convert true fuel c.sink (c.rest.take len) =
        some (.ok n, w, sink)) :
      Call c { writer := w, sink := sink, rest := c.rest.drop n }

/-- Resume the writer again and again.  The list has the states before the
calls. -/
inductive Run : Config -> List Config -> Config -> Prop where
  | nil (c : Config) : Run c [] c
  | cons {c d e : Config} {calls : List Config} (hcall : Call c d)
      (hrun : Run d calls e) : Run c (c :: calls) e

theorem Call.sent {c d : Config} (h : Call c d) (hfits : c.Fits)
    (hlen : c.rest.length < guintSize) :
    d.Fits ∧ d.rest.length <= c.rest.length ∧
      (d.owed = c.owed ∧ (c.Stale -> d.Stale) ∨
        c.Stale ∧ c.owed.length < d.owed.length) := by
  rcases h with ⟨len, fuel, n, w, sink, hpiece, hrun⟩
  have hlenPiece : (c.rest.take len).length < guintSize :=
    Nat.lt_of_le_of_lt (List.length_take_le' _ _) hlen
  have hsplit : c.rest.take len ++ c.rest.drop len = c.rest :=
    List.take_append_drop len c.rest
  have hsent := Writer.convert_sent (c.rest.drop len) hlenPiece hpiece
    (by rw [hsplit]; exact hfits) hrun
  rw [hsplit] at hsent
  rcases hsent with ⟨owed, hsent, howed⟩
  refine ⟨hsent.fits, ?_, ?_⟩
  · rw [List.length_drop]
    exact Nat.sub_le _ _
  · have hd : (Config.mk w sink (c.rest.drop n)).owed = owed := hsent.output
    rw [hd]
    rcases howed with ⟨hsame, hstay⟩ | hmore
    · apply Or.inl
      refine ⟨hsame, ?_⟩
      intro hstale
      rcases hstay hstale with ⟨hw, hn⟩
      subst hw hn
      exact hstale
    · exact Or.inr hmore

/-- A stale state shows in the output, sooner or later. -/
theorem Run.owed {c d : Config} {calls : List Config} (h : Run c calls d)
    (hfits : c.Fits) (hlen : c.rest.length < guintSize) :
    d.Fits ∧ c.owed.length <= d.owed.length ∧
      ((forall x, x ∈ calls -> ¬x.Stale) -> d.owed = c.owed) ∧
      (c.Stale ∨ (exists x, x ∈ calls ∧ x.Stale) ->
        d.Stale ∨ c.owed.length < d.owed.length) := by
  induction h with
  | nil c =>
      refine ⟨hfits, Nat.le_refl _, fun _ => rfl, ?_⟩
      intro hstale
      rcases hstale with hstale | ⟨x, hx, _⟩
      · exact Or.inl hstale
      · cases hx
  | cons hcall hrun ih =>
      rcases hcall.sent hfits hlen with ⟨hfits', hlen', hstep⟩
      rcases ih hfits' (Nat.lt_of_le_of_lt hlen' hlen) with
        ⟨hfinal, hmono, hclean, hdirty⟩
      refine ⟨hfinal, ?_, ?_, ?_⟩
      · rcases hstep with ⟨hsame, _⟩ | ⟨_, hmore⟩
        · rw [<- hsame]
          exact hmono
        · exact Nat.le_of_lt (Nat.lt_of_lt_of_le hmore hmono)
      · intro hall
        rw [hclean (fun x hx => hall x (List.mem_cons_of_mem _ hx))]
        rcases hstep with ⟨hsame, _⟩ | ⟨hstale, _⟩
        · exact hsame
        · exact absurd hstale (hall _ List.mem_cons_self)
      · intro hstale
        rcases hstep with ⟨hsame, hstay⟩ | ⟨_, hmore⟩
        · rw [<- hsame]
          apply hdirty
          rcases hstale with hstale | ⟨x, hx, hstale⟩
          · exact Or.inl (hstay hstale)
          · rcases List.mem_cons.mp hx with heq | hx
            · rw [heq] at hstale
              exact Or.inl (hstay hstale)
            · exact Or.inr ⟨x, hx, hstale⟩
        · exact Or.inr (Nat.lt_of_lt_of_le hmore hmono)

theorem fits_start (mode : LineEnd) (accepts : List (Except TecoError Nat))
    (text : Bytes) : (start mode accepts text).Fits := by
  intro h
  cases h

theorem owed_start (mode : LineEnd) (accepts : List (Except TecoError Nat))
    (text : Bytes) :
    (start mode accepts text).owed = LineEnd.encode mode text := rfl

/-- Nothing is due when everything has been consumed. -/
theorem owed_done {c : Config} (hfits : c.Fits) (hdone : c.rest = []) :
    c.owed = c.sink.output := by
  unfold owed
  cases hw : c.writer.writeLf with
  | true =>
      rcases (hfits hw).head with ⟨b, rest, hrest, _⟩
      rw [hdone] at hrest
      cases hrest
  | false =>
      rw [hdone, Writer.due_done hw, List.append_nil]

end Config

/-- However the sink cuts what is written, its contents are those of a sink
that accepts everything at once, unless the writer resumes in a stale
state. -/
theorem run_output_iff {mode : LineEnd}
    {accepts : List (Except TecoError Nat)} {text : Bytes}
    {calls : List Config} {final : Config}
    (hrun : Config.Run (Config.start mode accepts text) calls final)
    (hdone : final.rest = []) :
    (exists fuel, Writer.writeAll fuel mode text = some final.sink.output ∧
        final.sink.output = LineEnd.encode mode text) <->
      text.length < guintSize ∧ forall c, c ∈ calls -> ¬c.Stale := by
  have hfinal (hlen : text.length < guintSize) :
      ((forall c, c ∈ calls -> ¬c.Stale) ->
        final.sink.output = LineEnd.encode mode text) ∧
      ((exists c, c ∈ calls ∧ c.Stale) ->
        (LineEnd.encode mode text).length < final.sink.output.length) := by
    rcases hrun.owed (Config.fits_start mode accepts text) hlen with
      ⟨hfits, _, hclean, hdirty⟩
    rw [Config.owed_done hfits hdone, Config.owed_start] at hclean hdirty
    constructor
    · exact hclean
    · intro hstale
      rcases hdirty (Or.inr hstale) with hlate | hmore
      · rcases hlate with ⟨_, _, rest, hrest⟩
        rw [hdone] at hrest
        cases hrest
      · exact hmore
  constructor
  · intro h
    rcases h with ⟨fuel, hall, houtput⟩
    have hlen : text.length < guintSize := by
      by_contra hlarge
      rw [Writer.writeAll_oversized (Nat.not_lt.mp hlarge)] at hall
      cases hall
    refine ⟨hlen, ?_⟩
    intro c hc hstale
    have hmore := (hfinal hlen).2 ⟨c, hc, hstale⟩
    rw [houtput] at hmore
    exact Nat.lt_irrefl _ hmore
  · intro h
    rcases h with ⟨hlen, hclean⟩
    have houtput := (hfinal hlen).1 hclean
    refine ⟨text.length + 1, ?_, houtput⟩
    rw [houtput]
    exact Writer.writeAll_eq mode hlen (Nat.lt_succ_self _)

/-- The line end of a line feed is cut, which does no harm. -/
theorem run_output_iff_cut :
    exists calls final,
      Config.Run (Config.start .crlf [.ok 0, .ok 1] [10, 97]) calls final ∧
        final.rest = [] ∧
        ((exists fuel, Writer.writeAll fuel .crlf [10, 97] =
              some final.sink.output ∧
            final.sink.output = LineEnd.encode .crlf [10, 97]) <->
          [(10 : UInt8), 97].length < guintSize ∧
            forall c, c ∈ calls -> ¬c.Stale) := by
  have hcut : Config.Call (Config.start .crlf [.ok 0, .ok 1] [10, 97]) _ :=
    .intro 2 3 0 ⟨true, 0, .crlf⟩ ⟨[13], []⟩ (by decide) (by decide)
  have hresumed : Config.Call ⟨⟨true, 0, .crlf⟩, ⟨[13], []⟩, [10, 97]⟩ _ :=
    .intro 2 3 2 ⟨false, 97, .crlf⟩ ⟨[13, 10, 97], []⟩ (by decide) (by decide)
  have hrun := Config.Run.cons hcut (Config.Run.cons hresumed (.nil _))
  exact ⟨_, _, hrun, rfl, run_output_iff hrun rfl⟩

/-- The line end of a CRLF is cut and gets written twice. -/
theorem run_output_stale :
    exists calls final,
      Config.Run (Config.start .crlf [.ok 0, .ok 1] [13, 10]) calls final ∧
        final.rest = [] ∧ final.sink.output = [13, 10, 13, 10] ∧
        Writer.writeAll 3 .crlf [13, 10] = some [13, 10] := by
  have hcut : Config.Call (Config.start .crlf [.ok 0, .ok 1] [13, 10]) _ :=
    .intro 2 3 0 ⟨true, 0, .crlf⟩ ⟨[13], []⟩ (by decide) (by decide)
  have hresumed : Config.Call ⟨⟨true, 0, .crlf⟩, ⟨[13], []⟩, [13, 10]⟩ _ :=
    .intro 2 3 2 ⟨false, 10, .crlf⟩ ⟨[13, 10, 13, 10], []⟩ (by decide)
      (by decide)
  have hrun := Config.Run.cons hcut (Config.Run.cons hresumed (.nil _))
  exact ⟨_, _, hrun, rfl, rfl, by decide⟩

end Eol
end SciTECO
