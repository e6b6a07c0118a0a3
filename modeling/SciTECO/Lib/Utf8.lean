import Mathlib.Data.List.Basic
import Mathlib.Tactic.Common

/-!
# Encodings

A machine reads UTF-8 byte by byte.  In a single-byte encoding every byte is a
character.
-/

namespace Encodings

/-- Where the machine stands: between characters, or in a sequence of which
`need + 1` bytes are still to come.  `least` is the least code that is not
written with fewer bytes. -/
inductive State where
  | start
  | more (need code least : Nat)
deriving DecidableEq, Repr

/-- One byte, with the character which it completes. -/
def step : State -> UInt8 -> Option (Option Char × State)
  | .start, b =>
      if b < 0x80 then some (some (Char.ofNat b.toNat), .start)
      else if b < 0xC0 then none
      else if b < 0xE0 then some (none, .more 0 (b.toNat % 0x20) 0x80)
      else if b < 0xF0 then some (none, .more 1 (b.toNat % 0x10) 0x800)
      else if b < 0xF8 then some (none, .more 2 (b.toNat % 0x08) 0x10000)
      else none
  | .more 0 code least, b =>
      let code := code * 0x40 + b.toNat % 0x40
      if (0x80 ≤ b ∧ b < 0xC0) ∧ least ≤ code ∧
          (code < 0xD800 ∨ (0xDFFF < code ∧ code < 0x110000)) then
        some (some (Char.ofNat code), .start)
      else none
  | .more (need + 1) code least, b =>
      if 0x80 ≤ b ∧ b < 0xC0 then
        some (none, .more need (code * 0x40 + b.toNat % 0x40) least)
      else none

/-- The characters of a sequence of bytes. -/
def decodeFrom (s : State) : List UInt8 -> Option (List Char)
  | [] => if s = .start then some [] else none
  | b :: rest =>
      match step s b with
      | none => none
      | some (c, s') => (decodeFrom s' rest).map (fun text => c.toList ++ text)

inductive Encoding where
  | utf8
  | singleByte
deriving DecidableEq, Repr

/-- The characters of a text, if it is one. -/
def decode : Encoding -> List UInt8 -> Option (List Char)
  | .utf8, bytes => decodeFrom .start bytes
  | .singleByte, bytes => some (bytes.map (fun b => Char.ofNat b.toNat))

/-! ## Sequences -/

theorem decodeFrom_append {bytes : List UInt8} :
    forall {s : State} {text : List Char},
      decodeFrom s bytes = some text -> forall bytes',
        decodeFrom s (bytes ++ bytes') =
          (decodeFrom .start bytes').map (fun text' => text ++ text') := by
  induction bytes with
  | nil =>
      intro s text h bytes'
      unfold decodeFrom at h
      split at h
      · next hstart =>
          cases h
          rw [hstart, List.nil_append]
          cases decodeFrom .start bytes' <;> rfl
      · cases h
  | cons b rest ih =>
      intro s text h bytes'
      rw [List.cons_append, decodeFrom]
      rw [decodeFrom] at h
      cases hstep : step s b with
      | none =>
          rw [hstep] at h
          cases h
      | some next =>
          rw [hstep] at h
          dsimp only at h ⊢
          cases hrest : decodeFrom next.2 rest with
          | none =>
              rw [hrest] at h
              cases h
          | some text' =>
              rw [hrest] at h
              cases h
              rw [ih hrest]
              cases decodeFrom .start bytes' with
              | none => rfl
              | some text'' =>
                  exact congrArg some (List.append_assoc _ _ _).symm

theorem decode_append {e : Encoding} {bytes : List UInt8} {text : List Char}
    (h : decode e bytes = some text) (bytes' : List UInt8) :
    decode e (bytes ++ bytes') =
      (decode e bytes').map (fun text' => text ++ text') := by
  cases e with
  | utf8 => exact decodeFrom_append h bytes'
  | singleByte =>
      cases h
      exact congrArg some (List.map_append ..)

/-! ## The first character -/

/-- The length of the sequence which begins with a byte. -/
def sequenceLength (lead : UInt8) : Nat :=
  if lead < 0xC0 then 1 else if lead < 0xE0 then 2 else if lead < 0xF0 then 3 else 4

theorem decodeFrom_more {need least : Nat} :
    forall {code : Nat} {bytes : List UInt8} {text : List Char},
      decodeFrom (.more need code least) bytes = some text ->
      exists c text' taken rest, text = c :: text' ∧ bytes = taken ++ rest ∧
        taken.length = need + 1 ∧ decodeFrom .start rest = some text' := by
  induction need with
  | zero =>
      intro code bytes text h
      cases bytes with
      | nil => cases h
      | cons b rest =>
          dsimp only [decodeFrom, step] at h
          split at h
          · cases h
          · next c s' hstep =>
              split at hstep
              · cases hstep
                cases hrest : decodeFrom .start rest with
                | none =>
                    rw [hrest] at h
                    cases h
                | some text' =>
                    rw [hrest] at h
                    cases h
                    exact ⟨_, text', [b], rest, rfl, rfl, rfl, hrest⟩
              · cases hstep
  | succ need ih =>
      intro code bytes text h
      cases bytes with
      | nil => cases h
      | cons b rest =>
          dsimp only [decodeFrom, step] at h
          split at h
          · cases h
          · next c s' hstep =>
              split at hstep
              · cases hstep
                rw [Option.map_eq_some_iff] at h
                rcases h with ⟨text', hrest, rfl⟩
                rcases ih hrest with ⟨d, text'', taken, rest', ht, hb, hl, hr⟩
                exact ⟨d, text'', b :: taken, rest', ht,
                  by rw [hb]; rfl, by rw [List.length_cons, hl], hr⟩
              · cases hstep

theorem step_start {b : UInt8} {c : Option Char} {s : State}
    (h : step .start b = some (c, s)) :
    (b < 0x80 ∧ c = some (Char.ofNat b.toNat) ∧ s = .start) ∨
      (¬ b < 0x80 ∧ c = none ∧ exists need code least,
        s = .more need code least ∧ need + 2 = sequenceLength b ∧ b < 0xF8 ∧
          0x80 ≤ least) := by
  dsimp only [step] at h
  split at h
  · next hb =>
      cases h
      exact .inl ⟨hb, rfl, rfl⟩
  · next hb =>
      split at h
      · cases h
      · next hlead =>
          have hlength : sequenceLength b =
              if b < 0xE0 then 2 else if b < 0xF0 then 3 else 4 :=
            if_neg hlead
          split at h
          · next hb2 =>
              cases h
              refine .inr ⟨hb, rfl, 0, _, _, rfl, ?_, ?_, by decide⟩
              · rw [hlength, if_pos hb2]
              · exact UInt8.lt_trans hb2 (by decide)
          · next hb2 =>
              split at h
              · next hb3 =>
                  cases h
                  refine .inr ⟨hb, rfl, 1, _, _, rfl, ?_, ?_, by decide⟩
                  · rw [hlength, if_neg hb2, if_pos hb3]
                  · exact UInt8.lt_trans hb3 (by decide)
              · next hb3 =>
                  split at h
                  · next hb4 =>
                      cases h
                      refine .inr ⟨hb, rfl, 2, _, _, rfl, ?_, hb4, by decide⟩
                      rw [hlength, if_neg hb2, if_neg hb3]
                  · cases h

/-- A text begins with the sequence of its first character. -/
theorem decodeFrom_start_cons {b : UInt8} {bytes : List UInt8}
    {text : List Char} (h : decodeFrom .start (b :: bytes) = some text) :
    exists c text' taken rest, text = c :: text' ∧ bytes = taken ++ rest ∧
      taken.length + 1 = sequenceLength b ∧ b < 0xF8 ∧
      (b < 0x80 -> c = Char.ofNat b.toNat) ∧
      decodeFrom .start rest = some text' := by
  rw [decodeFrom] at h
  cases hstep : step .start b with
  | none =>
      rw [hstep] at h
      cases h
  | some next =>
      rcases next with ⟨c, s⟩
      rw [hstep] at h
      dsimp only at h
      rw [Option.map_eq_some_iff] at h
      rcases h with ⟨text', hrest, rfl⟩
      rcases step_start hstep with ⟨hb, rfl, rfl⟩ |
        ⟨hb, rfl, need, code, least, rfl, hlength, hlead, _⟩
      · refine ⟨_, text', [], bytes, rfl, rfl, ?_, ?_, fun _ => rfl, hrest⟩
        · rw [sequenceLength, if_pos (UInt8.lt_trans hb (by decide))]
          rfl
        · exact UInt8.lt_trans hb (by decide)
      · rcases decodeFrom_more hrest with
          ⟨c, text'', taken, rest, ht, hbytes, hl, hr⟩
        refine ⟨c, text'', taken, rest, ht, hbytes, ?_, hlead, ?_, hr⟩
        · rw [hl, ← hlength]
        · exact fun hlow => absurd hlow hb

theorem decodeFrom_start_nil {bytes : List UInt8}
    (h : decodeFrom .start bytes = some []) : bytes = [] := by
  cases bytes with
  | nil => rfl
  | cons b bytes =>
      rcases decodeFrom_start_cons h with ⟨c, text', _, _, hnil, _⟩
      cases hnil

theorem decode_nil (e : Encoding) : decode e [] = some [] := by
  cases e <;> rfl

/-- Bytes outside of ASCII stay as they are, and a byte of ASCII is written as
some of them. -/
structure Rewrites (f : UInt8 -> List UInt8) (g : Char -> List Char) : Prop where
  high : forall b, ¬ b < 0x80 -> f b = [b]
  highChar : forall c : Char, ¬ c.toNat < 0x80 -> g c = [c]
  ascii : forall b, b < 0x80 -> f b ≠ [] ∧ forall d, d ∈ f b -> d < 0x80
  asciiChar : forall b, b < 0x80 ->
    g (Char.ofNat b.toNat) = (f b).map (fun d => Char.ofNat d.toNat)

theorem decodeFrom_ascii {bytes : List UInt8} (h : forall b, b ∈ bytes -> b < 0x80)
    (rest : List UInt8) :
    decodeFrom .start (bytes ++ rest) =
      (decodeFrom .start rest).map (fun text =>
        bytes.map (fun b => Char.ofNat b.toNat) ++ text) := by
  induction bytes with
  | nil =>
      rw [List.nil_append]
      cases decodeFrom .start rest <;> rfl
  | cons b bytes ih =>
      have hb := h b List.mem_cons_self
      have hstep : step .start b = some (some (Char.ofNat b.toNat), .start) :=
        if_pos hb
      rw [List.cons_append, decodeFrom, hstep]
      dsimp only
      rw [ih (fun d hd => h d (List.mem_cons_of_mem b hd))]
      cases decodeFrom .start rest <;> rfl

/-- The codes which a sequence stands for are outside of ASCII. -/
def State.High : State -> Prop
  | .start => True
  | .more _ _ least => 0x80 ≤ least

theorem step_start_high {b : UInt8} (hb : ¬ b < 0x80)
    {c : Option Char} {s : State} (h : step .start b = some (c, s)) :
    c = none ∧ s.High := by
  rcases step_start h with ⟨hlow, _⟩ | ⟨_, hc, need, code, least, hs, _, _, hleast⟩
  · exact absurd hlow hb
  · rw [hs]
    exact ⟨hc, hleast⟩

theorem step_more_low {b : UInt8} (hb : b < 0x80) (need code least : Nat) :
    step (.more need code least) b = none := by
  have hnot : ¬ (0x80 ≤ b ∧ b < 0xC0) := by
    rintro ⟨hle, _⟩
    exact absurd (UInt8.lt_of_lt_of_le hb hle) (UInt8.lt_irrefl _)
  cases need with
  | zero => exact if_neg (fun h => hnot h.1)
  | succ need => exact if_neg hnot

theorem char_toNat {n : Nat}
    (h : n < 0xD800 ∨ (0xDFFF < n ∧ n < 0x110000)) :
    (Char.ofNat n).toNat = n := by
  have hvalid : n.isValidChar := h
  unfold Char.ofNat
  rw [dif_pos hvalid]
  rfl

theorem step_more_high {b : UInt8} {need code least : Nat} {c : Option Char}
    {s : State} (hleast : 0x80 ≤ least)
    (h : step (.more need code least) b = some (c, s)) :
    s.High ∧ forall d, c = some d -> ¬ d.toNat < 0x80 := by
  cases need with
  | zero =>
      dsimp only [step] at h
      split at h
      · next hcode =>
          cases h
          refine ⟨trivial, ?_⟩
          intro d hd
          cases hd
          rw [char_toNat hcode.2.2]
          omega
      · cases h
  | succ need =>
      dsimp only [step] at h
      split at h
      · cases h
        exact ⟨hleast, fun d hd => by cases hd⟩
      · cases h

/-- Rewriting ASCII commutes with reading the characters. -/
theorem decodeFrom_rewrite {f : UInt8 -> List UInt8} {g : Char -> List Char}
    (h : Rewrites f g) (bytes : List UInt8) :
    forall s : State, s.High ->
      decodeFrom s (bytes.flatMap f) =
        (decodeFrom s bytes).map (fun text => text.flatMap g) := by
  induction bytes with
  | nil =>
      intro s _
      rw [List.flatMap_nil]
      unfold decodeFrom
      split <;> rfl
  | cons b rest ih =>
      intro s hs
      rw [List.flatMap_cons]
      by_cases hb : b < 0x80
      · rcases h.ascii b hb with ⟨hne, hall⟩
        cases s with
        | start =>
            have hstep : step .start b =
                some (some (Char.ofNat b.toNat), .start) := if_pos hb
            rw [decodeFrom_ascii hall, ih .start trivial, decodeFrom, hstep]
            dsimp only
            cases decodeFrom .start rest with
            | none => rfl
            | some text =>
                have hascii := h.asciiChar b hb
                exact congrArg (fun out => some (out ++ text.flatMap g))
                  hascii.symm
        | more need code least =>
            cases hout : f b with
            | nil => exact absurd hout hne
            | cons d out =>
                have hd : d < 0x80 := hall d (by rw [hout]; simp)
                rw [List.cons_append, decodeFrom, decodeFrom,
                  step_more_low hd, step_more_low hb]
                rfl
      · rw [h.high b hb, List.singleton_append, decodeFrom, decodeFrom]
        cases hstep : step s b with
        | none => rfl
        | some next =>
            rcases next with ⟨c, s'⟩
            have hnext : s'.High ∧ forall d, c = some d -> ¬ d.toNat < 0x80 := by
              cases s with
              | start =>
                  rcases step_start_high hb hstep with ⟨hnone, hhigh⟩
                  refine ⟨hhigh, fun d hd => ?_⟩
                  rw [hnone] at hd
                  cases hd
              | more need code least => exact step_more_high hs hstep
            dsimp only
            rw [ih s' hnext.1]
            cases decodeFrom s' rest with
            | none => rfl
            | some text =>
                cases c with
                | none => rfl
                | some d =>
                    have hd := h.highChar d (hnext.2 d rfl)
                    exact congrArg (fun out => some (out ++ text.flatMap g))
                      hd.symm

theorem decode_rewrite {f : UInt8 -> List UInt8} {g : Char -> List Char}
    (h : Rewrites f g) (e : Encoding) (bytes : List UInt8) :
    decode e (bytes.flatMap f) =
      (decode e bytes).map (fun text => text.flatMap g) := by
  cases e with
  | utf8 => exact decodeFrom_rewrite h bytes .start trivial
  | singleByte =>
      apply congrArg some
      dsimp only
      rw [List.map_flatMap, List.flatMap_map]
      apply List.flatMap_congr
      intro b _
      by_cases hb : b < 0x80
      · exact (h.asciiChar b hb).symm
      · have hbyte := UInt8.toNat_lt b
        have hhigh : ¬ (Char.ofNat b.toNat).toNat < 0x80 := by
          rw [char_toNat (by omega)]
          intro hlow
          exact hb (UInt8.lt_iff_toNat_lt.mpr hlow)
        rw [h.high b hb, h.highChar _ hhigh]
        rfl

/-! ## Valid sequences -/

/-- A sequence of bytes is a text. -/
def Valid (e : Encoding) (bytes : List UInt8) : Prop :=
  exists text, decode e bytes = some text

theorem valid_nil (e : Encoding) : Valid e [] := ⟨[], decode_nil e⟩

theorem Valid.append {e : Encoding} {bytes bytes' : List UInt8}
    (h : Valid e bytes) (h' : Valid e bytes') : Valid e (bytes ++ bytes') := by
  rcases h with ⟨text, htext⟩
  rcases h' with ⟨text', htext'⟩
  exact ⟨text ++ text', by rw [decode_append htext, htext']; rfl⟩

theorem valid_ascii {bytes : List UInt8} (h : forall b, b ∈ bytes -> b < 0x80) :
    Valid .utf8 bytes := by
  have hdecode := decodeFrom_ascii h []
  rw [List.append_nil] at hdecode
  exact ⟨_, hdecode⟩

/-- `valid_ascii` for a text that is written out. -/
theorem valid_ascii_text {bytes : List UInt8}
    (h : bytes.all (fun b => b < 0x80) = true) : Valid .utf8 bytes := by
  apply valid_ascii
  intro b hb
  exact of_decide_eq_true (List.all_eq_true.mp h b hb)

theorem valid_ascii_cons {b : UInt8} (hb : b < 0x80) (bytes : List UInt8) :
    Valid .utf8 (b :: bytes) <-> Valid .utf8 bytes := by
  have hcons := decodeFrom_ascii
    (fun d hd => List.mem_singleton.mp hd ▸ hb : forall d, d ∈ [b] -> d < 0x80)
    bytes
  constructor
  · rintro ⟨text, htext⟩
    rw [← List.singleton_append] at htext
    rcases Option.map_eq_some_iff.mp (hcons.symm.trans htext) with
      ⟨text', htext', _⟩
    exact ⟨text', htext'⟩
  · rintro ⟨text, htext⟩
    exact ⟨_, hcons.trans (congrArg _ htext)⟩

/-- A byte between a character's bytes begins no text. -/
theorem not_valid_continuation {b : UInt8} (h : 0x80 ≤ b) (h' : b < 0xC0)
    (bytes : List UInt8) : ¬ Valid .utf8 (b :: bytes) := by
  rintro ⟨text, htext⟩
  have hstep : step .start b = none := by
    rw [step, if_neg (UInt8.not_lt.mpr h), if_pos h']
  have hnone : decodeFrom .start (b :: bytes) = none := by
    rw [decodeFrom, hstep]
  cases hnone.symm.trans htext

/-- A byte with which a text begins is not one between a character's bytes. -/
theorem step_more_lead {b : UInt8} {next : Option Char × State}
    (h : step .start b = some next) (need code least : Nat) :
    step (.more need code least) b = none := by
  have hnot : ¬ (0x80 ≤ b ∧ b < 0xC0) := by
    rintro ⟨hle, hlt⟩
    rw [step, if_neg (UInt8.not_lt.mpr hle), if_pos hlt] at h
    cases h
  cases need with
  | zero => exact if_neg (fun h => hnot h.1)
  | succ need => exact if_neg hnot

theorem decodeFrom_front {bytes bytes' : List UInt8}
    (hrest : Valid .utf8 bytes') :
    forall {s : State} {text : List Char},
      decodeFrom s (bytes ++ bytes') = some text ->
        exists front, decodeFrom s bytes = some front := by
  induction bytes with
  | nil =>
      intro s text h
      cases s with
      | start => exact ⟨[], rfl⟩
      | more need code least =>
          rw [List.nil_append] at h
          rcases hrest with ⟨text', htext'⟩
          cases bytes' with
          | nil => cases h
          | cons b bytes' =>
              change decodeFrom .start (b :: bytes') = _ at htext'
              rw [decodeFrom] at h htext'
              cases hstep : step .start b with
              | none =>
                  rw [hstep] at htext'
                  cases htext'
              | some next =>
                  rw [step_more_lead hstep] at h
                  cases h
  | cons b bytes ih =>
      intro s text h
      rw [List.cons_append, decodeFrom] at h
      rw [decodeFrom]
      cases hstep : step s b with
      | none =>
          rw [hstep] at h
          cases h
      | some next =>
          rw [hstep] at h
          dsimp only at h ⊢
          rcases Option.map_eq_some_iff.mp h with ⟨text', htext', _⟩
          rcases ih htext' with ⟨front, hfront⟩
          exact ⟨_, congrArg _ hfront⟩

/-- What stands in front of a text within a text is a text. -/
theorem valid_front {bytes bytes' : List UInt8}
    (h : Valid .utf8 (bytes ++ bytes')) (hrest : Valid .utf8 bytes') :
    Valid .utf8 bytes := by
  rcases h with ⟨text, htext⟩
  exact decodeFrom_front hrest htext

theorem decodeFrom_ascii_behind {b : UInt8} (hb : b < 0x80)
    {bytes bytes' : List UInt8} :
    forall {s : State} {text : List Char},
      decodeFrom s (bytes ++ b :: bytes') = some text ->
        Valid .utf8 (b :: bytes') := by
  induction bytes with
  | nil =>
      intro s text h
      cases s with
      | start => exact ⟨text, h⟩
      | more need code least =>
          rw [List.nil_append, decodeFrom, step_more_low hb] at h
          cases h
  | cons d bytes ih =>
      intro s text h
      rw [List.cons_append, decodeFrom] at h
      cases hstep : step s d with
      | none =>
          rw [hstep] at h
          cases h
      | some next =>
          rw [hstep] at h
          dsimp only at h
          rcases Option.map_eq_some_iff.mp h with ⟨text', htext', _⟩
          exact ih htext'

/-- A text may be cut in front of a byte of ASCII. -/
theorem valid_append_ascii {b : UInt8} (hb : b < 0x80)
    (bytes bytes' : List UInt8) :
    Valid .utf8 (bytes ++ b :: bytes') <->
      Valid .utf8 bytes ∧ Valid .utf8 (b :: bytes') := by
  constructor
  · rintro ⟨text, htext⟩
    have hbehind := decodeFrom_ascii_behind hb htext
    exact ⟨valid_front ⟨text, htext⟩ hbehind, hbehind⟩
  · rintro ⟨hfront, hbehind⟩
    exact hfront.append hbehind

/-- The first character of a text, and the text behind it. -/
theorem valid_split {b : UInt8} {bytes : List UInt8}
    (h : Valid .utf8 (b :: bytes)) :
    b < 0xF8 ∧ Valid .utf8 ((b :: bytes).take (sequenceLength b)) ∧
      Valid .utf8 ((b :: bytes).drop (sequenceLength b)) := by
  rcases h with ⟨text, htext⟩
  rcases decodeFrom_start_cons htext with
    ⟨c, text', taken, rest, _, hbytes, hlength, hlead, _, hrest⟩
  have hvalid : Valid .utf8 rest := ⟨text', hrest⟩
  have hsplit : b :: bytes = (b :: taken) ++ rest := by
    rw [hbytes]
    rfl
  have hchar : Valid .utf8 (b :: taken) := by
    refine valid_front ?_ hvalid
    rw [← hsplit]
    exact ⟨text, htext⟩
  have hcount : sequenceLength b = (b :: taken).length := hlength.symm
  rw [hsplit, hcount, List.take_left, List.drop_left]
  exact ⟨hlead, hchar, hvalid⟩

theorem valid_rewrite {f : UInt8 -> List UInt8} {g : Char -> List Char}
    (h : Rewrites f g) (e : Encoding) (bytes : List UInt8) :
    Valid e (bytes.flatMap f) <-> Valid e bytes := by
  unfold Valid
  rw [decode_rewrite h]
  constructor
  · rintro ⟨text, htext⟩
    rcases Option.map_eq_some_iff.mp htext with ⟨text', htext', _⟩
    exact ⟨text', htext'⟩
  · rintro ⟨text, htext⟩
    exact ⟨_, congrArg _ htext⟩

end Encodings
