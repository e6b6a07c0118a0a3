import SciTECO.Lib.PcreEscapes
import SciTECO.Pattern.Translator

/-!
# Literal search text

Characters without a meaning in patterns and quoted characters are translated
into the escapes which `g_regex_escape_string()` writes for them one by one.
-/

namespace SciTECO
namespace Pattern

open Encodings

/-! ## Regular expressions -/

/-- How `g_regex_escape_string()` writes a byte. -/
def escapeByte (b : UInt8) : Bytes :=
  if b = 0 then utf8 "\\0"
  else if Char.ofNat b.toNat ∈ Pcre.metacharacters then ['\\'.toUInt8, b]
  else [b]

/-- `g_regex_escape_string()` escapes metacharacters and writes a NUL byte as a
backslash and a zero. -/
def EscapesMetacharacters (regexEscapeString : Bytes -> Bytes) : Prop :=
  forall string, regexEscapeString string = string.flatMap escapeByte

/-- A regular expression matches at the beginning of a subject, up to the text
behind the match. -/
def Matches (newline : List Char -> Bool) (codepage : Encoding) (re : Bytes)
    (start : Bool) (subject after : List Char) : Prop :=
  exists pattern, decode codepage re = some pattern ∧
    exists tokens, Pcre.read pattern = .ok tokens ∧
      Pcre.MatchesAt newline tokens start subject after

/-- A regular expression matches a text and nothing else. -/
def MatchesExactly (newline : List Char -> Bool) (codepage : Encoding)
    (re : Bytes) (text : List Char) : Prop :=
  forall start subject after,
    Matches newline codepage re start subject after <-> subject = text ++ after

theorem byte_toNat (b : UInt8) : (Char.ofNat b.toNat).toNat = b.toNat := by
  have hbyte := UInt8.toNat_lt b
  exact char_toNat (by omega)

theorem metacharacter_ascii {c : Char} (h : c ∈ Pcre.metacharacters) :
    c.toNat < 0x80 ∧ c ≠ Pcre.nul := by
  have hall : Pcre.metacharacters.all
      (fun d => d.toNat < 0x80 ∧ d ≠ Pcre.nul) = true := by decide
  exact of_decide_eq_true (List.all_eq_true.mp hall c h)

theorem byte_ascii {b : UInt8} :
    (Char.ofNat b.toNat).toNat < 0x80 <-> b < 0x80 := by
  rw [byte_toNat, UInt8.lt_iff_toNat_lt]
  rfl

theorem byte_nul {b : UInt8} : Char.ofNat b.toNat = Pcre.nul <-> b = 0 := by
  constructor
  · intro h
    have hzero := congrArg Char.toNat h
    rw [byte_toNat] at hzero
    exact UInt8.toNat_inj.mp hzero
  · rintro rfl
    rfl

/-- The bytes are escaped as the characters they stand for. -/
theorem escapes_rewrite : Rewrites escapeByte Pcre.escapeChar where
  high := by
    intro b hb
    have hmeta : Char.ofNat b.toNat ∉ Pcre.metacharacters :=
      fun h => hb (byte_ascii.mp (metacharacter_ascii h).1)
    have hzero : b ≠ 0 := by
      rintro rfl
      exact hb (by decide)
    rw [escapeByte, if_neg hzero, if_neg hmeta]
  highChar := by
    intro c hc
    have hmeta : c ∉ Pcre.metacharacters :=
      fun h => hc (metacharacter_ascii h).1
    have hnul : c ≠ Pcre.nul := by
      rintro rfl
      exact hc (by decide)
    rw [Pcre.escapeChar, if_neg hnul, if_neg hmeta]
  ascii := by
    intro b hb
    unfold escapeByte
    split
    · have hall : (utf8 "\\0").all (fun d => d < 0x80) = true := by decide
      refine ⟨List.cons_ne_nil _ _, ?_⟩
      intro d hd
      exact of_decide_eq_true (List.all_eq_true.mp hall d hd)
    · split
      · refine ⟨List.cons_ne_nil _ _, ?_⟩
        intro d hd
        rcases List.mem_cons.mp hd with rfl | hd
        · decide
        · rw [List.mem_singleton.mp hd]
          exact hb
      · refine ⟨List.cons_ne_nil _ _, ?_⟩
        intro d hd
        rw [List.mem_singleton.mp hd]
        exact hb
  asciiChar := by
    intro b _
    unfold escapeByte Pcre.escapeChar
    by_cases hzero : b = 0
    · rw [if_pos hzero, if_pos (byte_nul.mpr hzero)]
      rfl
    · rw [if_neg hzero, if_neg (fun h => hzero (byte_nul.mp h))]
      split <;> rfl

theorem decode_escape {codepage : Encoding} {string : Bytes}
    {text : List Char} (h : decode codepage string = some text) :
    decode codepage (string.flatMap escapeByte) =
      some (text.flatMap Pcre.escapeChar) := by
  rw [decode_rewrite escapes_rewrite, h]
  rfl

theorem escapeByte_ne_zero (b : UInt8) : 0 ∉ escapeByte b := by
  unfold escapeByte
  split
  · decide
  · next hb =>
      split
      · simp only [List.mem_cons, List.not_mem_nil, or_false, not_or]
        exact ⟨by decide, fun h => hb h.symm⟩
      · rw [List.mem_singleton]
        exact fun h => hb h.symm

theorem escape_ne_zero (string : Bytes) : 0 ∉ string.flatMap escapeByte := by
  intro h
  rcases List.mem_flatMap.mp h with ⟨b, _, hb⟩
  exact escapeByte_ne_zero b hb

/-- Escaped bytes match their text unless a NUL merges with a digit. -/
theorem matchesExactly_escape (newline : List Char -> Bool)
    {codepage : Encoding} {string : Bytes} {text : List Char}
    (h : decode codepage string = some text) :
    MatchesExactly newline codepage (string.flatMap escapeByte) text <->
      Pcre.NulSafe text := by
  rw [← Pcre.escape_exact_iff newline text]
  have hmatches (start : Bool) (subject after : List Char) :
      Matches newline codepage (string.flatMap escapeByte) start subject after <->
        exists tokens, Pcre.read (text.flatMap Pcre.escapeChar) = .ok tokens ∧
          Pcre.MatchesAt newline tokens start subject after := by
    unfold Matches
    rw [decode_escape h]
    constructor
    · rintro ⟨pattern, hpattern, hread⟩
      cases hpattern
      exact hread
    · intro hread
      exact ⟨_, rfl, hread⟩
  constructor
  · intro hexact start subject after
    rw [← hmatches]
    exact hexact start subject after
  · intro hexact start subject after
    rw [hmatches]
    exact hexact start subject after

/-! ## Literal text -/

/-- The characters with a meaning in patterns. -/
def matchCharacters : List Char :=
  ['\x05', '\x0E', '\x11', '\x12', '\x13', '\x18', '^']

/-- ^Q and ^R, which may be typed with carets. -/
def quotes : List Bytes :=
  [[ctl 'Q'], [ctl 'R'], utf8 "^Q", utf8 "^q", utf8 "^R", utf8 "^r"]

/-- A pattern of characters which stand for themselves. -/
inductive LiteralText (codepage : Encoding) : Bytes -> List Char -> Prop where
  | nil : LiteralText codepage [] []
  | plain {char rest : Bytes} {c : Char} {text : List Char} :
      decode codepage char = some [c] -> c ∉ matchCharacters ->
      LiteralText codepage rest text ->
      LiteralText codepage (char ++ rest) (c :: text)
  | quoted {quote char rest : Bytes} {c : Char} {text : List Char} :
      quote ∈ quotes -> decode codepage char = some [c] ->
      LiteralText codepage rest text ->
      LiteralText codepage (quote ++ (char ++ rest)) (c :: text)

/-- The bytes of a character are those which the translator takes. -/
theorem firstChar_append {codepage : Encoding} {char : Bytes} {c : Char}
    (h : decode codepage char = some [c]) (rest : Bytes) :
    exists b tail, char = b :: tail ∧ (b < 0x80 -> c = Char.ofNat b.toNat) ∧
      firstChar codepage (char ++ rest) = char ∧
      behindChar codepage (char ++ rest) = rest := by
  have htake {b : UInt8} {tail : Bytes} (hchar : char = b :: tail)
      (hlength : charLength codepage (char ++ rest) = char.length) :
      firstChar codepage (char ++ rest) = char ∧
        behindChar codepage (char ++ rest) = rest := by
    unfold firstChar behindChar
    rw [hlength]
    exact ⟨List.take_left, List.drop_left⟩
  cases codepage with
  | singleByte =>
      rcases char with _ | ⟨b, _ | ⟨b', tail⟩⟩
      · cases h
      · refine ⟨b, [], rfl, fun _ => ?_, htake rfl rfl⟩
        cases h
        rfl
      · cases h
  | utf8 =>
      cases char with
      | nil => cases h
      | cons b bytes =>
          rcases decodeFrom_start_cons h with
            ⟨d, text', taken, rest', htext, hbytes, hlength, hlead, hlow, hrest⟩
          cases htext
          have hnil := decodeFrom_start_nil hrest
          subst hnil
          rw [List.append_nil] at hbytes
          subst hbytes
          refine ⟨b, bytes, rfl, hlow, htake rfl ?_⟩
          have hskip : utf8Skip b = sequenceLength b := by
            unfold utf8Skip sequenceLength
            rw [if_pos hlead]
          change utf8Skip b = bytes.length + 1
          rw [hskip, hlength]

theorem utf8Skip_pos (b : UInt8) : 0 < utf8Skip b := by
  unfold utf8Skip
  repeat' split
  all_goals decide

theorem behindChar_length {codepage : Encoding} {pattern : Bytes} (h : pattern ≠ []) :
    (behindChar codepage pattern).length < pattern.length := by
  have hpos : 0 < charLength codepage pattern := by
    cases codepage with
    | utf8 => exact utf8Skip_pos _
    | singleByte => exact Nat.one_pos
  have hlength := List.length_pos_iff.mpr h
  unfold behindChar
  rw [List.length_drop]
  omega

section Translation

variable {S : Type} {regexEscapeString : Bytes -> Bytes}
  {qregMachine : SpecMachine S} {codepage : Encoding}

theorem classAt_none {b : UInt8} {passed rest : Bytes} {machine : S}
    (hs : b ≠ ctl 'S') (he : b ≠ ctl 'E') :
    classAt regexEscapeString qregMachine codepage false
      ⟨.start, passed, b :: rest, machine⟩ =
        .ok ([], ⟨.start, passed, b :: rest, machine⟩) := by
  unfold classAt class2Regexp
  dsimp only
  rw [if_neg hs, if_neg he]
  rfl

theorem classAt_escape {passed pattern : Bytes} {machine : S} :
    classAt regexEscapeString qregMachine codepage false
      ⟨.escape, passed, pattern, machine⟩ =
        .ok ([], ⟨.escape, passed, pattern, machine⟩) := by
  cases pattern <;> rfl

/-- A pass of the loop that reaches its condition. -/
theorem pattern2RegexpFrom_condition {s u : Scanner S} {re re' : Bytes}
    (hpass : forall nested,
      pass regexEscapeString qregMachine codepage nested s re =
        .ok (.condition u re'))
    (singleExpr : Bool) (fuel : Nat) :
    pattern2RegexpFrom regexEscapeString qregMachine codepage (fuel + 1)
      singleExpr s re =
        if singleExpr ∧ u.state = .start then complete u re'
        else
          pattern2RegexpFrom regexEscapeString qregMachine codepage fuel
            singleExpr u re' := by
  rw [pattern2RegexpFrom, hpass]
  rfl

/-- A pass of the loop in which there is no class. -/
theorem pass_unclassed {s t : Scanner S} {re : Bytes}
    {nested : Scanner S -> Except Failure (Bytes × Scanner S)}
    (h : classAt regexEscapeString qregMachine codepage false
      (resolveCaret s) = .ok ([], t)) :
    pass regexEscapeString qregMachine codepage nested s re =
      match t.pattern with
      | [] => .ok (.endOfPattern t re)
      | b :: _ =>
          passState regexEscapeString qregMachine codepage nested b t re := by
  unfold pass
  rw [h]
  rfl

/-- A pattern element which is not a class. -/
theorem pass_noClass {s t u : Scanner S} {re re' : Bytes} {b : UInt8}
    {rest : Bytes} (hcaret : resolveCaret s = t)
    (hclass : classAt regexEscapeString qregMachine codepage false t =
      .ok ([], t))
    (hpattern : t.pattern = b :: rest)
    {nested : Scanner S -> Except Failure (Bytes × Scanner S)}
    (hpass : passState regexEscapeString qregMachine codepage nested b t re =
      .ok (.condition u re')) :
    pass regexEscapeString qregMachine codepage nested s re =
      .ok (.condition u re') := by
  subst hcaret
  rw [pass_unclassed hclass, hpattern]
  exact hpass

/-- A pass of the loop on a pattern element which is not a class. -/
theorem pattern2RegexpFrom_pass {s t u : Scanner S} {re re' : Bytes}
    {b : UInt8} {rest : Bytes} (hcaret : resolveCaret s = t)
    (hclass : classAt regexEscapeString qregMachine codepage false t =
      .ok ([], t))
    (hpattern : t.pattern = b :: rest)
    (hpass : forall nested,
      passState regexEscapeString qregMachine codepage nested b t re =
        .ok (.condition u re'))
    (fuel : Nat) :
    pattern2RegexpFrom regexEscapeString qregMachine codepage (fuel + 1) false
      s re =
        pattern2RegexpFrom regexEscapeString qregMachine codepage fuel false
          u re' := by
  rw [pattern2RegexpFrom_condition
    (fun nested => pass_noClass hcaret hclass hpattern (hpass nested))]
  rfl

theorem pattern2RegexpFrom_escape {char : Bytes} {c : Char}
    (h : decode codepage char = some [c]) (passed rest : Bytes) (machine : S)
    (re : Bytes) (fuel : Nat) :
    pattern2RegexpFrom regexEscapeString qregMachine codepage (fuel + 1) false
      ⟨.escape, passed, char ++ rest, machine⟩ re =
        pattern2RegexpFrom regexEscapeString qregMachine codepage fuel false
          ⟨.start, passed ++ char, rest, machine⟩
          (re ++ regexEscapeString char) := by
  rcases firstChar_append h rest with ⟨b, tail, hchar, _, hfirst, hbehind⟩
  have hpattern : char ++ rest = b :: (tail ++ rest) := by
    rw [hchar]
    rfl
  apply pattern2RegexpFrom_pass (t := ⟨.escape, passed, char ++ rest, machine⟩)
    rfl classAt_escape hpattern
  intro nested
  dsimp only [passState]
  change Except.ok (Pass.condition
    ⟨.start, passed ++ firstChar codepage (char ++ rest),
      behindChar codepage (char ++ rest), machine⟩
    (re ++ regexEscapeString (firstChar codepage (char ++ rest)))) = _
  rw [hfirst, hbehind]

theorem pattern2RegexpFrom_plain {char : Bytes} {c : Char}
    (h : decode codepage char = some [c]) (hc : c ∉ matchCharacters)
    (passed rest : Bytes) (machine : S) (re : Bytes) (fuel : Nat) :
    pattern2RegexpFrom regexEscapeString qregMachine codepage (fuel + 2) false
      ⟨.start, passed, char ++ rest, machine⟩ re =
        pattern2RegexpFrom regexEscapeString qregMachine codepage fuel false
          ⟨.start, passed ++ char, rest, machine⟩
          (re ++ regexEscapeString char) := by
  rw [← pattern2RegexpFrom_escape h passed rest machine re fuel]
  rcases firstChar_append h rest with ⟨b, tail, hchar, hlow, _⟩
  have hne (d : UInt8) (hd : d < 0x80)
      (hmem : Char.ofNat d.toNat ∈ matchCharacters) : b ≠ d := by
    rintro rfl
    exact hc (hlow hd ▸ hmem)
  have hpattern : char ++ rest = b :: (tail ++ rest) := by
    rw [hchar]
    rfl
  rw [hpattern]
  apply pattern2RegexpFrom_pass
    (t := ⟨.start, passed, b :: (tail ++ rest), machine⟩) rfl _ rfl
  · intro nested
    dsimp only [passState]
    rw [if_neg (hne _ (by decide) (by decide)), if_neg, if_neg, if_neg]
    · exact hne _ (by decide) (by decide)
    · exact hne _ (by decide) (by decide)
    · exact not_or.mpr
        ⟨hne _ (by decide) (by decide), hne _ (by decide) (by decide)⟩
  · exact classAt_none (hne _ (by decide) (by decide))
      (hne _ (by decide) (by decide))

/-- ^Q and ^R, as they are or behind a caret. -/
theorem pattern2RegexpFrom_quote {s : Scanner S} {b : UInt8}
    {passed rest : Bytes} {machine : S} (hb : b = ctl 'Q' ∨ b = ctl 'R')
    (hs : resolveCaret s = ⟨.start, passed, b :: rest, machine⟩)
    (re : Bytes) (fuel : Nat) :
    pattern2RegexpFrom regexEscapeString qregMachine codepage (fuel + 1) false
      s re =
        pattern2RegexpFrom regexEscapeString qregMachine codepage fuel false
          ⟨.escape, passed ++ [b], rest, machine⟩ re := by
  apply pattern2RegexpFrom_pass hs _ rfl
  · intro nested
    dsimp only [passState]
    rcases hb with rfl | rfl
    · rfl
    · rfl
  · rcases hb with rfl | rfl
    · exact classAt_none (by decide) (by decide)
    · exact classAt_none (by decide) (by decide)

theorem pattern2RegexpFrom_caret (passed rest : Bytes) (machine : S)
    (re : Bytes) (fuel : Nat) :
    pattern2RegexpFrom regexEscapeString qregMachine codepage (fuel + 1) false
      ⟨.start, passed, '^'.toUInt8 :: rest, machine⟩ re =
        pattern2RegexpFrom regexEscapeString qregMachine codepage fuel false
          ⟨.ctl, passed ++ ['^'.toUInt8], rest, machine⟩ re := by
  apply pattern2RegexpFrom_pass rfl (classAt_none (by decide) (by decide)) rfl
  intro nested
  rfl

theorem pattern2RegexpFrom_quoted {quote : Bytes} (hquote : quote ∈ quotes)
    (passed rest : Bytes) (machine : S) (re : Bytes) (fuel : Nat) :
    exists passed', pattern2RegexpFrom regexEscapeString qregMachine codepage
      (fuel + quote.length) false
      ⟨.start, passed, quote ++ rest, machine⟩ re =
        pattern2RegexpFrom regexEscapeString qregMachine codepage fuel false
          ⟨.escape, passed', rest, machine⟩ re := by
  simp only [quotes, List.mem_cons, List.not_mem_nil, or_false] at hquote
  rcases hquote with rfl | rfl | rfl | rfl | rfl | rfl
  · exact ⟨_, pattern2RegexpFrom_quote (.inl rfl) rfl re fuel⟩
  · exact ⟨_, pattern2RegexpFrom_quote (.inr rfl) rfl re fuel⟩
  · exact ⟨_, (pattern2RegexpFrom_caret _ _ machine re (fuel + 1)).trans
      (pattern2RegexpFrom_quote (.inl rfl) rfl re fuel)⟩
  · exact ⟨_, (pattern2RegexpFrom_caret _ _ machine re (fuel + 1)).trans
      (pattern2RegexpFrom_quote (.inl rfl) rfl re fuel)⟩
  · exact ⟨_, (pattern2RegexpFrom_caret _ _ machine re (fuel + 1)).trans
      (pattern2RegexpFrom_quote (.inr rfl) rfl re fuel)⟩
  · exact ⟨_, (pattern2RegexpFrom_caret _ _ machine re (fuel + 1)).trans
      (pattern2RegexpFrom_quote (.inr rfl) rfl re fuel)⟩

theorem pattern2RegexpFrom_end {passed : Bytes} {machine : S} {re : Bytes}
    (hre : 0 ∉ re) (fuel : Nat) :
    pattern2RegexpFrom regexEscapeString qregMachine codepage (fuel + 1) false
      ⟨.start, passed, [], machine⟩ re =
        .ok (re, ⟨.start, passed, [], machine⟩) := by
  change complete _ re = _
  unfold complete
  exact if_neg hre

theorem notMem_append {re string : Bytes} (h : 0 ∉ re) :
    0 ∉ re ++ string.flatMap escapeByte := by
  rw [List.mem_append]
  rintro (hre | hstring)
  · exact h hre
  · exact escape_ne_zero string hstring

/-- Literal text is translated into the escapes of its characters. -/
theorem pattern2RegexpFrom_literal
    (hescape : EscapesMetacharacters regexEscapeString) {pattern : Bytes}
    {text : List Char} (h : LiteralText codepage pattern text) (machine : S) :
    exists string, decode codepage string = some text ∧
      forall passed re, 0 ∉ re -> forall fuel, 2 * pattern.length < fuel ->
        exists passed',
          pattern2RegexpFrom regexEscapeString qregMachine codepage fuel false
            ⟨.start, passed, pattern, machine⟩ re =
              .ok (re ++ string.flatMap escapeByte,
                ⟨.start, passed', [], machine⟩) := by
  induction h with
  | nil =>
      refine ⟨[], by cases codepage <;> rfl, ?_⟩
      intro passed re hre fuel hfuel
      cases fuel with
      | zero => cases hfuel
      | succ fuel =>
          rw [pattern2RegexpFrom_end hre, List.flatMap_nil, List.append_nil]
          exact ⟨_, rfl⟩
  | @plain char rest c text hchar hc hrest ih =>
      rcases ih with ⟨string, hstring, hrun⟩
      refine ⟨char ++ string, ?_, ?_⟩
      · rw [decode_append hchar, hstring]
        rfl
      · intro passed re hre fuel hfuel
        rcases firstChar_append hchar rest with ⟨b, tail, hb, _⟩
        have hlength : char.length = tail.length + 1 := by rw [hb]; rfl
        rw [List.length_append] at hfuel
        rcases Nat.exists_eq_add_of_le' (show 2 ≤ fuel by omega) with ⟨fuel, rfl⟩
        rw [pattern2RegexpFrom_plain hchar hc, hescape, List.flatMap_append,
          ← List.append_assoc]
        exact hrun _ _ (notMem_append hre) fuel (by omega)
  | @quoted quote char rest c text hquote hchar hrest ih =>
      rcases ih with ⟨string, hstring, hrun⟩
      refine ⟨char ++ string, ?_, ?_⟩
      · rw [decode_append hchar, hstring]
        rfl
      · intro passed re hre fuel hfuel
        rcases firstChar_append hchar rest with ⟨b, tail, hb, _⟩
        have hlength : char.length = tail.length + 1 := by rw [hb]; rfl
        rw [List.length_append, List.length_append] at hfuel
        rcases Nat.exists_eq_add_of_le'
          (show quote.length + 1 ≤ fuel by omega) with ⟨fuel, rfl⟩
        rw [← Nat.add_assoc, Nat.add_right_comm]
        rcases pattern2RegexpFrom_quoted hquote passed (char ++ rest) machine re
          (fuel + 1) with ⟨passed', hquoted⟩
        rw [hquoted, pattern2RegexpFrom_escape hchar, hescape,
          List.flatMap_append, ← List.append_assoc]
        exact hrun _ _ (notMem_append hre) fuel (by omega)

theorem pattern2Regexp_literal
    (hescape : EscapesMetacharacters regexEscapeString) {pattern : Bytes}
    {text : List Char} (h : LiteralText codepage pattern text) :
    exists string, decode codepage string = some text ∧
      pattern2Regexp regexEscapeString qregMachine codepage pattern =
        .ok (string.flatMap escapeByte) := by
  rcases pattern2RegexpFrom_literal hescape h qregMachine.reset with
    ⟨string, hstring, hrun⟩
  refine ⟨string, hstring, ?_⟩
  unfold pattern2Regexp
  rcases hrun [] [] List.not_mem_nil _ (Nat.lt_add_of_pos_right Nat.two_pos)
    with ⟨passed, hend⟩
  rw [hend]
  rfl

/-- Literal text is matched literally unless the text has a NUL in front of an
octal digit. -/
theorem pattern2Regexp_literal_exact_iff (newline : List Char -> Bool)
    (hescape : EscapesMetacharacters regexEscapeString) {pattern : Bytes}
    {text : List Char} (h : LiteralText codepage pattern text) :
    (exists re,
      pattern2Regexp regexEscapeString qregMachine codepage pattern = .ok re ∧
        MatchesExactly newline codepage re text) <->
      Pcre.NulSafe text := by
  rcases pattern2Regexp_literal hescape h with ⟨string, hstring, hre⟩
  rw [hre, ← matchesExactly_escape newline hstring]
  constructor
  · rintro ⟨re, hok, hexact⟩
    cases hok
    exact hexact
  · intro hexact
    exact ⟨_, rfl, hexact⟩

end Translation

/-! ## Samples -/

/-- `g_regex_escape_string()` as it is documented. -/
def documentedEscape (string : Bytes) : Bytes := string.flatMap escapeByte

theorem documentedEscape_escapes : EscapesMetacharacters documentedEscape :=
  fun _ => rfl

/-- A machine for names of one letter, where every register contains a
string. -/
def oneLetter (string : Bytes) : SpecMachine Unit where
  reset := ()
  input := fun _ _ => .done string

/-- A quoted asterisk behind a NUL. -/
theorem pattern2Regexp_literal_exact_quoted :
    exists re,
      pattern2Regexp documentedEscape (oneLetter []) .utf8
        ([0] ++ ([ctl 'Q'] ++ (['*'.toUInt8] ++ []))) = .ok re ∧
        MatchesExactly (fun _ => false) .utf8 re [Pcre.nul, '*'] :=
  (pattern2Regexp_literal_exact_iff _ documentedEscape_escapes
    (.plain (c := Pcre.nul) rfl (by decide)
      (.quoted (c := '*') (by decide) rfl .nil))).mpr (by decide)

/-- A NUL in front of an octal digit is translated into the escape of another
character. -/
theorem pattern2Regexp_nul_digit :
    LiteralText .utf8 [0, '1'.toUInt8] [Pcre.nul, '1'] ∧
      ¬ exists re,
        pattern2Regexp documentedEscape (oneLetter []) .utf8
          [0, '1'.toUInt8] = .ok re ∧
          MatchesExactly (fun _ => false) .utf8 re [Pcre.nul, '1'] := by
  have hnul : decode .utf8 [0] = some [Pcre.nul] := rfl
  have hdigit : decode .utf8 ['1'.toUInt8] = some ['1'] := rfl
  have hboth : decode .utf8 [0, '1'.toUInt8] = some [Pcre.nul, '1'] := rfl
  constructor
  · exact .plain hnul (by decide) (.plain hdigit (by decide) .nil)
  · rintro ⟨re, hre, hexact⟩
    have hvalue : re = documentedEscape [0, '1'.toUInt8] :=
      Except.ok.inj (hre.symm.trans rfl)
    rw [hvalue] at hexact
    exact absurd ((matchesExactly_escape _ hboth).mp hexact) (by decide)

end Pattern
end SciTECO
