import SciTECO.Spawn.Callbacks

/-!
# Reading until there is no more

The callbacks take an empty block for the end of what can be read.  A block is
also empty when a chunk begins with the line feed of a CRLF whose carriage
return was the end of the chunk before.
-/

namespace SciTECO
namespace Spawn

open Eol

/-- A chunk begins with the line feed of a CRLF, and there are bytes behind
it. -/
def cutCrlf (cr : Bool) : List Bytes -> Bool
  | [] => false
  | chunk :: chunks =>
      cr && chunk.head? == some 10 && !(chunk.tail ++ chunks.flatten).isEmpty ||
        cutCrlf (Reader.lastCr cr chunk) chunks

@[simp] theorem cutCrlf_nil (cr : Bool) : cutCrlf cr [] = false := rfl

@[simp] theorem cutCrlf_empty (cr : Bool) (chunks : List Bytes) :
    cutCrlf cr ([] :: chunks) = cutCrlf cr chunks := by
  show (cr && false && _ || cutCrlf cr chunks) = _
  rw [Bool.and_false, Bool.false_and, Bool.false_or]

/-- The chunk does not begin in the middle of a line end. -/
theorem cutCrlf_skip {cr : Bool} {chunk : Bytes} (chunks : List Bytes)
    (h : ¬(cr = true ∧ chunk.head? = some 10)) :
    cutCrlf cr (chunk :: chunks) =
      cutCrlf (Reader.lastCr cr chunk) chunks := by
  have hhead : (cr && chunk.head? == some 10) = false := by
    apply Bool.eq_false_iff.mpr
    intro htrue
    rw [Bool.and_eq_true, beq_iff_eq] at htrue
    exact h htrue
  show (cr && chunk.head? == some 10 && _ || _) = _
  rw [hhead, Bool.false_and, Bool.false_or]

theorem cutCrlf_flatten {cr : Bool} {chunks : List Bytes}
    (h : chunks.flatten = []) : cutCrlf cr chunks = false := by
  induction chunks with
  | nil => rfl
  | cons chunk chunks ih =>
      rw [List.flatten_cons, List.append_eq_nil_iff] at h
      rw [h.1, cutCrlf_empty]
      exact ih h.2

/-- The chunks deliver all bytes, and then no more. -/
def Drains (chunks : List Bytes) : Prop :=
  exists full n, chunks = full ++ List.replicate n [] ∧
    forall chunk, chunk ∈ full -> chunk ≠ []

theorem Drains.tail {chunk : Bytes} {chunks : List Bytes}
    (h : Drains (chunk :: chunks)) : Drains chunks := by
  rcases h with ⟨full, n, heq, hfull⟩
  cases full with
  | nil =>
      cases n with
      | zero => cases heq
      | succ n => exact ⟨[], n, (List.cons.inj heq).2, hfull⟩
  | cons first full =>
      refine ⟨full, n, (List.cons.inj heq).2, ?_⟩
      intro chunk hchunk
      exact hfull chunk (List.mem_cons_of_mem _ hchunk)

theorem Drains.empty {chunks : List Bytes} (h : Drains ([] :: chunks)) :
    chunks.flatten = [] := by
  rcases h with ⟨full, n, heq, hfull⟩
  cases full with
  | nil =>
      cases n with
      | zero => cases heq
      | succ n =>
          rw [(List.cons.inj heq).2]
          apply List.flatten_eq_nil_iff.mpr
          intro chunk hchunk
          exact List.eq_of_mem_replicate hchunk
  | cons first full =>
      exact absurd (List.cons.inj heq).1.symm (hfull first List.mem_cons_self)

/-!
## One block
-/

/-- A reader of a channel, with the chunks that have not been read. -/
structure Reading (r : Reader) (chunks : List Bytes) : Prop where
  source : r.source = chunks.map Except.ok
  fits : forall chunk, chunk ∈ chunks -> chunk.length <= 1024
  short : r.unread.length <= 1024
  ready : r.Ready
  unread : r.cr = true -> r.unread = []

/-- What is going to be returned. -/
def remaining (r : Reader) (chunks : List Bytes) : Bytes :=
  r.output (r.unread ++ chunks.flatten)

def cutAhead (r : Reader) (chunks : List Bytes) : Bool :=
  cutCrlf r.cr (r.unread :: chunks)

theorem reading_init (stream : Stream) :
    Reading stream.reader stream.chunks where
  source := rfl
  fits := stream.fits
  short := Nat.zero_le _
  ready := Reader.ready_init _
  unread _ := rfl

theorem remaining_init (stream : Stream) :
    remaining stream.reader stream.chunks =
      LineEnd.normalize stream.bytes := rfl

/-- Nothing is left, or a block is returned. -/
inductive Converted (r : Reader) (chunks : List Bytes) :
    Status -> Reader -> Prop where
  | eof {r' : Reader} (hremaining : remaining r chunks = [])
      (hcut : cutAhead r chunks = false) (hsource : r'.source = [])
      (hbuffer : r'.buffer = []) : Converted r chunks .eof r'
  | block {block : Bytes} {r' : Reader} (chunks' : List Bytes)
      (hreading : Reading r' chunks')
      (hdrains : Drains chunks -> Drains chunks')
      (hremaining : block ++ remaining r' chunks' = remaining r chunks)
      (hcut : block ≠ [] -> cutAhead r' chunks' = cutAhead r chunks)
      (hcr : block = [] -> r'.cr = true -> r.cr = true)
      (hempty : block = [] -> Drains chunks ->
        (cutAhead r chunks = true <-> remaining r' chunks' ≠ []) ∧
          (cutAhead r chunks = true -> r.cr = true)) :
      Converted r chunks (.normal block) r'

theorem cutAhead_left {r' : Reader} {bytes : Bytes} {cr : Bool}
    (chunks : List Bytes) (hleft : Reader.Left cr bytes r') :
    cutAhead r' chunks = cutCrlf (Reader.lastCr cr bytes) chunks := by
  unfold cutAhead
  rw [cutCrlf_skip, hleft.lastCr]
  intro h
  rw [hleft.unread h.1] at h
  cases h.2

theorem remaining_nil {r : Reader} {chunks : List Bytes}
    (hunread : r.unread = []) (hchunks : chunks.flatten = []) :
    remaining r chunks = [] := by
  unfold remaining
  rw [hunread, hchunks]
  exact Reader.output_of_head (by simp)

/-- The block which ends in front of a line feed is the last one. -/
theorem cutAhead_lf {r r' : Reader} {rest : Bytes} {chunks : List Bytes}
    (hcr : r.cr = true) (hunread : r.unread = [])
    (hleft : Reader.Left r.cr (10 :: rest) r') (hrest : r'.unread = rest) :
    cutAhead r ((10 :: rest) :: chunks) = true <->
      remaining r' chunks ≠ [] := by
  have hcr' : r'.cr = false := by
    apply Bool.eq_false_iff.mpr
    intro htrue
    have hlast := hleft.lastCr
    rw [hleft.unread htrue, Reader.lastCr_nil, htrue] at hlast
    rw [<- hrest, hleft.unread htrue] at hlast
    cases hlast
  have houtput : remaining r' chunks =
      LineEnd.normalize (rest ++ chunks.flatten) := by
    unfold remaining Reader.output
    rw [hrest, if_neg]
    intro hlast
    rw [Reader.cr_eq_true.mpr hlast] at hcr'
    cases hcr'
  have hcut : cutAhead r ((10 :: rest) :: chunks) =
      (!(rest ++ chunks.flatten).isEmpty ||
        cutCrlf (Reader.lastCr true (10 :: rest)) chunks) := by
    unfold cutAhead
    rw [hunread, cutCrlf_empty, hcr]
    rfl
  rw [houtput, hcut, ne_eq, LineEnd.normalize, LineEnd.encode_eq_nil]
  by_cases hnone : rest ++ chunks.flatten = []
  · have hflatten := (List.append_eq_nil_iff.mp hnone).2
    rw [hnone, cutCrlf_flatten hflatten]
    simp
  · simp [hnone]

/-- One call of the reader. -/
theorem Reading.convert {r : Reader} {chunks : List Bytes}
    (h : Reading r chunks) :
    exists status r', r.convert true readerFuel = some (status, r') ∧
      Converted r chunks status r' := by
  have hsmall : 1024 < guintSize := by decide
  by_cases hmore : r.nextOffset < r.buffer.length
  · have hne : r.unread ≠ [] := by
      intro hnil
      exact Nat.not_lt.mpr (List.drop_eq_nil_iff.mp hnil) hmore
    have hcr : r.cr = false := by
      apply Bool.eq_false_iff.mpr
      intro htrue
      exact hne (h.unread htrue)
    rcases Reader.convert_unread h.ready hmore
      (Nat.lt_succ_of_le h.short) with ⟨block, r', hrun, hsource, hgives⟩
    rcases Reader.convert_unread_left h.ready hmore hcr hrun with
      ⟨hblock, hleft⟩
    refine ⟨_, r', hrun, ?_⟩
    apply Converted.block chunks
    · exact
        { source := hsource.trans h.source
          fits := h.fits
          short := Nat.le_trans hgives.progress
            (Nat.le_trans (Nat.sub_le _ _) h.short)
          ready := hgives.ready
          unread := hleft.unread }
    · exact id
    · exact hgives.output _
    · intro _
      rw [cutAhead_left chunks hleft]
      unfold cutAhead
      rw [hcr, cutCrlf_skip]
      intro hfalse
      cases hfalse.1
    · intro hempty
      exact absurd hempty hblock
    · intro hempty
      exact absurd hempty hblock
  · have hend : r.buffer.length <= r.nextOffset := Nat.not_lt.mp hmore
    have hunread : r.unread = [] := List.drop_eq_nil_of_le hend
    cases chunks with
    | nil =>
        rcases Reader.convert_eof readerFuel h.ready hend h.source with
          ⟨r', hrun, hsource, hbuffer, _⟩
        refine ⟨_, r', hrun, ?_⟩
        apply Converted.eof
        · exact remaining_nil hunread rfl
        · unfold cutAhead
          rw [hunread, cutCrlf_empty]
          rfl
        · exact hsource
        · exact hbuffer
    | cons chunk chunks =>
        have hchunk : chunk.length <= 1024 := h.fits chunk List.mem_cons_self
        have hlen : chunk.length < guintSize := Nat.lt_of_le_of_lt hchunk hsmall
        rcases Reader.convert_chunk h.ready hend h.source hlen
          (Nat.lt_succ_of_le hchunk) with ⟨block, r', hrun, hsource, hgives⟩
        rcases Reader.convert_chunk_left h.ready hend h.source hlen hrun with
          ⟨hleft, hempty, htail⟩
        refine ⟨_, r', hrun, ?_⟩
        apply Converted.block chunks
        · exact
            { source := hsource
              fits := fun c hc => h.fits c (List.mem_cons_of_mem _ hc)
              short := Nat.le_trans hgives.progress
                (Nat.le_trans (Nat.sub_le _ _) hchunk)
              ready := hgives.ready
              unread := hleft.unread }
        · exact Drains.tail
        · unfold remaining
          rw [hgives.output, hunread]
          rfl
        · intro hne
          rw [cutAhead_left chunks hleft]
          unfold cutAhead
          rw [hunread, cutCrlf_empty, cutCrlf_skip]
          intro hlf
          exact hne (hempty.mpr (Or.inr hlf))
        · intro hnone hcr'
          rcases hempty.mp hnone with hnil | ⟨hcr, _⟩
          · subst hnil
            have hlast := hleft.lastCr
            rw [htail hnone] at hlast
            exact hlast.symm.trans hcr'
          · exact hcr
        · intro hnone hdrains
          rcases hempty.mp hnone with hnil | ⟨hcr, hlf⟩
          · subst hnil
            have hflatten := hdrains.empty
            have hcut : cutAhead r ([] :: chunks) = false := by
              unfold cutAhead
              rw [hunread, cutCrlf_empty, cutCrlf_empty,
                cutCrlf_flatten hflatten]
            rw [remaining_nil (htail hnone) hflatten, hcut]
            simp
          · cases chunk with
            | nil => cases hlf
            | cons b rest =>
                have hb : b = 10 := Option.some.inj hlf
                subst hb
                exact ⟨cutAhead_lf hcr hunread hleft (htail hnone),
                  fun _ => hcr⟩

end Spawn
end SciTECO
