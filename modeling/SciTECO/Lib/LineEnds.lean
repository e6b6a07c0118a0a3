import Mathlib.Data.List.Basic
import Mathlib.Tactic.Common

/-!
# Line ends

A text is a sequence of bytes.  A carriage return with a line feed, a carriage
return alone and a line feed alone all end a line.  Encoding a text replaces
every line end by the one of a given kind.
-/

/-- The kinds of line ends. -/
inductive LineEnd where
  | crlf
  | cr
  | lf
deriving DecidableEq, Repr

namespace LineEnd

/-- The line end as it is written. -/
def seq : LineEnd -> List UInt8
  | crlf => [13, 10]
  | cr => [13]
  | lf => [10]

theorem seq_ne_nil (kind : LineEnd) : kind.seq ≠ [] := by
  cases kind <;> simp [seq]

/-- The parts of a text: line ends and other bytes. -/
def parts : List UInt8 -> List (LineEnd ⊕ UInt8)
  | [] => []
  | 13 :: 10 :: rest => Sum.inl crlf :: parts rest
  | b :: rest =>
      (if b = 13 then Sum.inl cr else if b = 10 then Sum.inl lf
        else Sum.inr b) :: parts rest

/-- One part in the encoding of a kind. -/
def encodePart (kind : LineEnd) : LineEnd ⊕ UInt8 -> List UInt8
  | Sum.inl _ => kind.seq
  | Sum.inr b => [b]

/-- Write every line end as one of the given kind. -/
def encode (kind : LineEnd) (text : List UInt8) : List UInt8 :=
  (parts text).flatMap (encodePart kind)

/-- Every line end becomes a line feed. -/
def normalize (text : List UInt8) : List UInt8 := encode lf text

/-- The kinds of the line ends in a text, in their order. -/
def kinds (text : List UInt8) : List LineEnd :=
  (parts text).filterMap (fun part => part.getLeft?)

/-- All line ends are of one kind. -/
def Uniform (text : List UInt8) : Prop :=
  forall k, k ∈ kinds text -> forall l, l ∈ kinds text -> k = l

instance (text : List UInt8) : Decidable (Uniform text) := by
  unfold Uniform
  infer_instance

/-!
## Byte by byte

What a line feed means depends on whether it follows a carriage return.
-/

/-- The text without a line feed at its beginning. -/
def dropLf : List UInt8 -> List UInt8
  | 10 :: rest => rest
  | text => text

@[simp] theorem dropLf_nil : dropLf [] = [] := rfl

@[simp] theorem dropLf_lf (rest : List UInt8) : dropLf (10 :: rest) = rest :=
  rfl

theorem dropLf_cons {b : UInt8} (hb : b ≠ 10) (rest : List UInt8) :
    dropLf (b :: rest) = b :: rest := by
  unfold dropLf
  split
  case h_1 heq => exact absurd (List.cons.inj heq).1 hb
  case h_2 => rfl

theorem dropLf_of_head {text : List UInt8} (h : text.head? ≠ some 10) :
    dropLf text = text := by
  cases text with
  | nil => rfl
  | cons b rest => exact dropLf_cons (fun hb => h (congrArg some hb)) rest

@[simp] theorem parts_nil : parts [] = [] := rfl

theorem parts_cr (rest : List UInt8) :
    parts (13 :: rest) =
      Sum.inl (if rest.head? = some 10 then crlf else cr) ::
        parts (dropLf rest) := by
  cases rest with
  | nil => rfl
  | cons b rest =>
      by_cases hb : b = 10
      · subst hb
        rfl
      · rw [dropLf_cons hb, parts.eq_3]
        · simp [hb]
        · intro rest' _ heq
          exact hb (List.cons.inj heq).1

theorem parts_cons {b : UInt8} (hb : b ≠ 13) (rest : List UInt8) :
    parts (b :: rest) =
      (if b = 10 then Sum.inl lf else Sum.inr b) :: parts rest := by
  rw [parts.eq_3]
  · simp [hb]
  · intro rest' heq _
    exact hb heq

@[simp] theorem parts_lf (rest : List UInt8) :
    parts (10 :: rest) = Sum.inl lf :: parts rest :=
  parts_cons (by decide) rest

theorem parts_other {b : UInt8} (hcr : b ≠ 13) (hlf : b ≠ 10)
    (rest : List UInt8) : parts (b :: rest) = Sum.inr b :: parts rest := by
  rw [parts_cons hcr, if_neg hlf]

section Encode

variable (kind : LineEnd)

@[simp] theorem encode_nil : encode kind [] = [] := rfl

theorem encode_cr (rest : List UInt8) :
    encode kind (13 :: rest) = kind.seq ++ encode kind (dropLf rest) := by
  unfold encode
  rw [parts_cr]
  rfl

theorem encode_lf (rest : List UInt8) :
    encode kind (10 :: rest) = kind.seq ++ encode kind rest := by
  unfold encode
  rw [parts_lf]
  rfl

theorem encode_other {b : UInt8} (hcr : b ≠ 13) (hlf : b ≠ 10)
    (rest : List UInt8) :
    encode kind (b :: rest) = b :: encode kind rest := by
  unfold encode
  rw [parts_other hcr hlf]
  rfl

/-- Bytes which end no line are written as they are. -/
theorem encode_append_plain {block : List UInt8}
    (hblock : forall b, b ∈ block -> b ≠ 13 ∧ b ≠ 10) (rest : List UInt8) :
    encode kind (block ++ rest) = block ++ encode kind rest := by
  induction block with
  | nil => rfl
  | cons b block ih =>
      rcases hblock b (by simp) with ⟨hcr, hlf⟩
      have hrest : forall c, c ∈ block -> c ≠ 13 ∧ c ≠ 10 := by
        intro c hc
        exact hblock c (by simp [hc])
      rw [List.cons_append, encode_other kind hcr hlf, ih hrest]
      rfl

end Encode

@[simp] theorem kinds_nil : kinds [] = [] := rfl

theorem kinds_cr (rest : List UInt8) :
    kinds (13 :: rest) =
      (if rest.head? = some 10 then crlf else cr) :: kinds (dropLf rest) := by
  unfold kinds
  rw [parts_cr]
  rfl

theorem kinds_lf (rest : List UInt8) : kinds (10 :: rest) = lf :: kinds rest := by
  unfold kinds
  rw [parts_lf]
  rfl

theorem kinds_other {b : UInt8} (hcr : b ≠ 13) (hlf : b ≠ 10)
    (rest : List UInt8) : kinds (b :: rest) = kinds rest := by
  unfold kinds
  rw [parts_other hcr hlf]
  rfl

/-- Reading a text byte by byte: a carriage return takes a following line feed
with it. -/
theorem text_induction {motive : List UInt8 -> Prop}
    (nil : motive [])
    (cr : forall rest, motive (dropLf rest) -> motive (13 :: rest))
    (lf : forall rest, motive rest -> motive (10 :: rest))
    (other : forall b rest, b ≠ 13 -> b ≠ 10 -> motive rest ->
      motive (b :: rest))
    (text : List UInt8) : motive text := by
  have hboth : motive text ∧ motive (dropLf text) := by
    induction text with
    | nil => exact ⟨nil, nil⟩
    | cons b rest ih =>
        have htext : motive (b :: rest) := by
          by_cases hcr : b = 13
          · subst hcr
            exact cr rest ih.2
          by_cases hlf : b = 10
          · subst hlf
            exact lf rest ih.1
          · exact other b rest hcr hlf ih.1
        constructor
        · exact htext
        · by_cases hlf : b = 10
          · subst hlf
            exact ih.1
          · rw [dropLf_cons hlf]
            exact htext
  exact hboth.1

/-- A text is written in two parts, unless that separates a line feed from its
carriage return. -/
theorem encode_append (kind : LineEnd) {front back : List UInt8}
    (h : front.getLast? = some 13 -> back.head? ≠ some 10) :
    encode kind (front ++ back) = encode kind front ++ encode kind back := by
  induction front using text_induction with
  | nil => rfl
  | cr rest ih =>
      have hdrop : dropLf (rest ++ back) = dropLf rest ++ back := by
        cases rest with
        | nil => exact dropLf_of_head (h rfl)
        | cons b rest =>
            by_cases hlf : b = 10
            · subst hlf
              rfl
            · rw [List.cons_append, dropLf_cons hlf, dropLf_cons hlf,
                List.cons_append]
      have hlast : (dropLf rest).getLast? = some 13 ->
          back.head? ≠ some 10 := by
        intro hrest
        apply h
        cases rest with
        | nil => cases hrest
        | cons b rest =>
            rw [List.getLast?_cons_cons]
            by_cases hlf : b = 10
            · subst hlf
              cases rest with
              | nil => cases hrest
              | cons c rest =>
                  rw [List.getLast?_cons_cons]
                  exact hrest
            · rw [dropLf_cons hlf] at hrest
              exact hrest
      rw [List.cons_append, encode_cr, encode_cr, hdrop, ih hlast,
        List.append_assoc]
  | lf rest ih =>
      have hlast : rest.getLast? = some 13 -> back.head? ≠ some 10 := by
        intro hrest
        apply h
        cases rest with
        | nil => cases hrest
        | cons b rest => exact hrest
      rw [List.cons_append, encode_lf, encode_lf, ih hlast, List.append_assoc]
  | other b rest hcr hlf ih =>
      have hlast : rest.getLast? = some 13 -> back.head? ≠ some 10 := by
        intro hrest
        apply h
        cases rest with
        | nil => cases hrest
        | cons c rest => exact hrest
      rw [List.cons_append, encode_other kind hcr hlf,
        encode_other kind hcr hlf, ih hlast, List.cons_append]

/-!
## Round trips
-/

/-- A written line end is read as it was written, unless a carriage return is
written in front of a line feed. -/
theorem parts_seq_append (kind : LineEnd) {rest : List UInt8}
    (hrest : kind = cr -> dropLf rest = rest) :
    parts (kind.seq ++ rest) = Sum.inl kind :: parts rest := by
  cases kind with
  | crlf => rfl
  | lf => exact parts_lf rest
  | cr =>
      have hsame : dropLf rest = rest := hrest rfl
      have hhead : rest.head? ≠ some 10 := by
        intro h
        cases rest with
        | nil => cases h
        | cons b rest =>
            rw [Option.some.inj h, dropLf_lf] at hsame
            exact absurd (congrArg List.length hsame) (by simp)
      show parts (13 :: rest) = _
      rw [parts_cr, if_neg hhead, hsame]

/-- Text without carriage returns is written without line feeds, if carriage
returns are the line ends. -/
theorem dropLf_encode_cr {text : List UInt8}
    (hcr : forall b, b ∈ text -> b ≠ 13) :
    dropLf (encode cr text) = encode cr text := by
  cases text with
  | nil => rfl
  | cons b rest =>
      by_cases hlf : b = 10
      · subst hlf
        rfl
      · rw [encode_other cr (hcr b (by simp)) hlf, dropLf_cons hlf]

/-- The parts of a text survive, with other line ends. -/
theorem parts_encode (kind : LineEnd) {text : List UInt8}
    (hcr : forall b, b ∈ text -> b ≠ 13) :
    parts (encode kind text) =
      (parts text).map (Sum.map (fun _ => kind) id) := by
  induction text with
  | nil => rfl
  | cons b rest ih =>
      have hrest : forall c, c ∈ rest -> c ≠ 13 := by
        intro c hc
        exact hcr c (by simp [hc])
      have hb : b ≠ 13 := hcr b (by simp)
      by_cases hlf : b = 10
      · subst hlf
        rw [encode_lf, parts_seq_append, ih hrest, parts_lf]
        · rfl
        · intro hkind
          subst hkind
          exact dropLf_encode_cr hrest
      · rw [encode_other kind hb hlf, parts_other hb hlf,
          parts_other hb hlf, ih hrest]
        rfl

/-- Without carriage returns, nothing but line feeds ends a line. -/
theorem normalize_of_no_cr {text : List UInt8}
    (hcr : forall b, b ∈ text -> b ≠ 13) : normalize text = text := by
  induction text with
  | nil => rfl
  | cons b rest ih =>
      have hrest : forall c, c ∈ rest -> c ≠ 13 := by
        intro c hc
        exact hcr c (by simp [hc])
      have ih := ih hrest
      unfold normalize at ih ⊢
      by_cases hlf : b = 10
      · subst hlf
        rw [encode_lf, ih]
        rfl
      · rw [encode_other lf (hcr b (by simp)) hlf, ih]

/-- Nothing but the empty text becomes the empty text. -/
theorem encode_eq_nil {kind : LineEnd} {text : List UInt8} :
    encode kind text = [] <-> text = [] := by
  constructor
  · intro h
    cases text using text_induction with
    | nil => rfl
    | cr rest _ =>
        rw [encode_cr, List.append_eq_nil_iff] at h
        exact absurd h.1 (seq_ne_nil kind)
    | lf rest _ =>
        rw [encode_lf, List.append_eq_nil_iff] at h
        exact absurd h.1 (seq_ne_nil kind)
    | other b rest hcr hlf _ =>
        rw [encode_other kind hcr hlf] at h
        cases h
  · intro h
    rw [h]
    rfl

/-- Text without carriage returns is restored. -/
theorem normalize_encode (kind : LineEnd) {text : List UInt8}
    (hcr : forall b, b ∈ text -> b ≠ 13) :
    normalize (encode kind text) = text := by
  have hparts : normalize (encode kind text) = normalize text := by
    unfold normalize
    rw [encode, parts_encode kind hcr, List.flatMap_map, encode]
    congr 1
    funext part
    cases part <;> rfl
  rw [hparts, normalize_of_no_cr hcr]

/-- The line ends that have been written. -/
theorem kinds_encode (kind : LineEnd) {text : List UInt8}
    (hcr : forall b, b ∈ text -> b ≠ 13) :
    kinds (encode kind text) = (kinds text).map (fun _ => kind) := by
  unfold kinds
  rw [parts_encode kind hcr, List.filterMap_map, List.map_filterMap]
  congr 1
  funext part
  cases part <;> rfl

/-- Text with line ends of one kind is restored. -/
theorem encode_normalize {kind : LineEnd} {text : List UInt8}
    (hkind : forall k, k ∈ kinds text -> k = kind) :
    encode kind (normalize text) = text := by
  unfold normalize
  induction text using text_induction with
  | nil => rfl
  | cr rest ih =>
      rw [kinds_cr] at hkind
      have hrest := ih (fun k hk => hkind k (by simp [hk]))
      have hhead := hkind _ List.mem_cons_self
      rw [encode_cr]
      show encode kind (10 :: encode lf (dropLf rest)) = _
      rw [encode_lf, hrest, <- hhead]
      by_cases hlf : rest.head? = some 10
      · rw [if_pos hlf]
        cases rest with
        | nil => cases hlf
        | cons b rest =>
            rw [Option.some.inj hlf]
            rfl
      · rw [if_neg hlf]
        cases rest with
        | nil => rfl
        | cons b rest =>
            have hb : b ≠ 10 := fun h => hlf (congrArg some h)
            rw [dropLf_cons hb]
            rfl
  | lf rest ih =>
      rw [kinds_lf] at hkind
      have hrest := ih (fun k hk => hkind k (by simp [hk]))
      have hhead := hkind _ List.mem_cons_self
      rw [encode_lf]
      show encode kind (10 :: encode lf rest) = _
      rw [encode_lf, hrest, <- hhead]
      rfl
  | other b rest hcr hlf ih =>
      rw [kinds_other hcr hlf] at hkind
      rw [encode_other lf hcr hlf, encode_other kind hcr hlf, ih hkind]

end LineEnd
