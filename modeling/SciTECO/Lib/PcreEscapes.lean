import Mathlib.Data.List.Chain
import SciTECO.Lib.PcreMatching

/-!
# Escapes in PCRE patterns

A backslash in front of a character that is neither a letter nor a digit quotes
it.  In front of a zero it begins an octal escape, which takes up to two more
octal digits.  The escapes of other letters and digits are beyond the fragment.
-/

namespace Pcre

def isOctalDigit (c : Char) : Bool := '0' ≤ c && c ≤ '7'

/-- A character of a pattern, or an escape. -/
inductive Lexeme where
  | plain (c : Char)
  | quoted (c : Char)
  | octal (digits : List Char)
deriving DecidableEq, Repr

def octalValue (digits : List Char) : Char :=
  Char.ofNat (digits.foldl (fun n d => 8 * n + (d.toNat - '0'.toNat)) 0)

namespace Lexeme

/-- How it is written. -/
def text : Lexeme -> List Char
  | plain c => [c]
  | quoted c => ['\\', c]
  | octal digits => '\\' :: '0' :: digits

/-- The character it stands for, unless it is an operator. -/
def value : Lexeme -> Char
  | plain c => c
  | quoted c => c
  | octal digits => octalValue digits

end Lexeme

/-- Where in an escape a character is read. -/
inductive LexState where
  | text
  | escape
  | octal (digits : List Char)
deriving DecidableEq, Repr

def lexFrom : LexState -> List Char -> Except SyntaxError (List Lexeme)
  | .text, [] => .ok []
  | .escape, [] => .error .trailingBackslash
  | .octal digits, [] => .ok [.octal digits]
  | .text, c :: rest =>
      if c = '\\' then lexFrom .escape rest
      else (lexFrom .text rest).map (fun ls => .plain c :: ls)
  | .escape, c :: rest =>
      if c = '0' then lexFrom (.octal []) rest
      else if c.isAlphanum then .error .beyondFragment
      else (lexFrom .text rest).map (fun ls => .quoted c :: ls)
  | .octal digits, c :: rest =>
      if digits.length < 2 ∧ isOctalDigit c then
        lexFrom (.octal (digits ++ [c])) rest
      else if c = '\\' then
        (lexFrom .escape rest).map (fun ls => .octal digits :: ls)
      else
        (lexFrom .text rest).map (fun ls => .octal digits :: .plain c :: ls)

/-- A character which is no operator where it stands. -/
def readLiteral (mode : Mode) (c : Char) :
    Except SyntaxError (Option Token × Mode) :=
  let member (cls : OpenClass) : Except SyntaxError (Option Token × Mode) :=
    (cls.literal c).map (fun cls => (none, .inside cls))
  match mode with
  | .outside _ => .ok (some (.literal c), .outside true)
  | .opening => member (.start false)
  | .first negated => member (.start negated)
  | .inside cls => member cls
  | .escape => .error .beyondFragment
  | .insideEscape _ => .error .beyondFragment

def readLexeme (mode : Mode) (lexeme : Lexeme) (rest : List Lexeme) :
    Except SyntaxError (Option Token × Mode) :=
  match lexeme with
  | .plain c => readChar mode c (rest.flatMap Lexeme.text)
  | .quoted c => readLiteral mode c
  | .octal digits => readLiteral mode (octalValue digits)

def readFrom (mode : Mode) : List Lexeme -> Except SyntaxError (List Token)
  | [] => atEnd mode
  | lexeme :: rest =>
      match readLexeme mode lexeme rest with
      | .error e => .error e
      | .ok (token, mode') =>
          (readFrom mode' rest).map (fun tokens => token.toList ++ tokens)

/-- Read a pattern that may contain octal escapes. -/
def read (pattern : List Char) : Except SyntaxError (List Token) :=
  (lexFrom .text pattern).bind (readFrom (.outside false))

/-! ## Escaped text -/

def nul : Char := '\x00'

def metacharacters : List Char :=
  ['\\', '|', '(', ')', '[', ']', '{', '}', '^', '$', '*', '+', '?', '.']

/-- A character as it is escaped: a NUL begins an octal escape. -/
def escapeChar (c : Char) : List Char :=
  if c = nul then ['\\', '0']
  else if c ∈ metacharacters then ['\\', c]
  else [c]

/-- The escape of a NUL takes no digit of what follows. -/
def NulSafe (text : List Char) : Prop :=
  text.IsChain (fun c d => c = nul -> isOctalDigit d = false)

instance (text : List Char) : Decidable (NulSafe text) :=
  inferInstanceAs (Decidable (text.IsChain _))

/-- The lexeme of a character, if nothing is merged. -/
def lexemeOf (c : Char) : Lexeme :=
  if c = nul then .octal []
  else if c ∈ metacharacters then .quoted c
  else .plain c

/-- The lexemes of escaped text, behind the digits of an octal escape. -/
def lexemesFrom : Option (List Char) -> List Char -> List Lexeme
  | none, [] => []
  | some digits, [] => [.octal digits]
  | none, c :: rest =>
      if c = nul then lexemesFrom (some []) rest
      else lexemeOf c :: lexemesFrom none rest
  | some digits, c :: rest =>
      if digits.length < 2 ∧ isOctalDigit c then
        lexemesFrom (some (digits ++ [c])) rest
      else if c = nul then .octal digits :: lexemesFrom (some []) rest
      else .octal digits :: lexemeOf c :: lexemesFrom none rest

def lexemes (text : List Char) : List Lexeme := lexemesFrom none text

theorem lexemesFrom_octal {digits : List Char} {c : Char}
    (h : ¬ (digits.length < 2 ∧ isOctalDigit c = true)) (rest : List Char) :
    lexemesFrom (some digits) (c :: rest) =
      .octal digits :: lexemesFrom none (c :: rest) := by
  have hread : lexemesFrom (some digits) (c :: rest) =
      if c = nul then .octal digits :: lexemesFrom (some []) rest
      else .octal digits :: lexemeOf c :: lexemesFrom none rest := if_neg h
  rw [hread, lexemesFrom]
  split <;> rfl

/-- The state in which the rest of escaped text is read. -/
def lexState : Option (List Char) -> LexState
  | none => .text
  | some digits => .octal digits

theorem map_map_except {ε α β γ : Type} (f : β -> γ) (g : α -> β)
    (x : Except ε α) : (x.map g).map f = x.map (fun a => f (g a)) := by
  cases x <;> rfl

theorem metacharacter_quoted {c : Char} (h : c ∈ metacharacters) :
    c ≠ '0' ∧ c.isAlphanum = false ∧ isOctalDigit c = false := by
  have hall : metacharacters.all (fun d =>
      d ≠ '0' ∧ d.isAlphanum = false ∧ isOctalDigit d = false) = true := by
    decide
  exact of_decide_eq_true (List.all_eq_true.mp hall c h)

/-- The first lexeme of escaped text, read outside of an escape. -/
theorem lexFrom_escapeChar {c : Char} (hc : c ≠ nul) (rest : List Char) :
    lexFrom .text (escapeChar c ++ rest) =
      (lexFrom .text rest).map (fun ls => lexemeOf c :: ls) := by
  unfold escapeChar lexemeOf
  rw [if_neg hc, if_neg hc]
  by_cases hmeta : c ∈ metacharacters
  · rcases metacharacter_quoted hmeta with ⟨hzero, halpha, _⟩
    rw [if_pos hmeta, if_pos hmeta]
    simp [lexFrom, hzero, halpha]
  · have hback : c ≠ '\\' := by
      rintro rfl
      exact hmeta (by decide)
    rw [if_neg hmeta, if_neg hmeta]
    simp [lexFrom, hback]

theorem lexFrom_nul (rest : List Char) :
    lexFrom .text (escapeChar nul ++ rest) = lexFrom (.octal []) rest := rfl

/-- Text which does not begin with one of the digits ends an octal escape. -/
theorem lexFrom_octal {digits : List Char} {c : Char}
    (h : ¬ (digits.length < 2 ∧ isOctalDigit c = true)) (rest : List Char) :
    lexFrom (.octal digits) (c :: rest) =
      (lexFrom .text (c :: rest)).map (fun ls => .octal digits :: ls) := by
  have hread : lexFrom (.octal digits) (c :: rest) =
      if c = '\\' then
        (lexFrom .escape rest).map (fun ls => .octal digits :: ls)
      else
        (lexFrom .text rest).map (fun ls => .octal digits :: .plain c :: ls) :=
    if_neg h
  rw [hread, lexFrom]
  split
  · rfl
  · rw [map_map_except]

/-- The text behind the escaped text is not read as a part of it. -/
def Apart (tail : List Char) : Prop :=
  forall c, tail.head? = some c -> isOctalDigit c = false

theorem lexFrom_octal_end {digits tail : List Char} (h : Apart tail) :
    lexFrom (.octal digits) tail =
      (lexFrom .text tail).map (fun ls => .octal digits :: ls) := by
  cases tail with
  | nil => rfl
  | cons c rest =>
      apply lexFrom_octal
      rintro ⟨_, hoctal⟩
      rw [h c rfl] at hoctal
      cases hoctal

/-- A character that continues no octal escape is written without an octal
digit in front. -/
theorem escapeChar_head {c : Char} (hc : isOctalDigit c = false) :
    exists d out, escapeChar c = d :: out ∧ isOctalDigit d = false := by
  unfold escapeChar
  split
  · exact ⟨'\\', ['0'], rfl, rfl⟩
  · split
    · exact ⟨'\\', [c], rfl, rfl⟩
    · exact ⟨c, [], rfl, hc⟩

theorem escapeChar_octal {c : Char} (hc : isOctalDigit c = true) :
    escapeChar c = [c] := by
  have hnul : c ≠ nul := by
    rintro rfl
    cases hc
  have hmeta : c ∉ metacharacters := by
    intro h
    rw [(metacharacter_quoted h).2.2] at hc
    cases hc
  rw [escapeChar, if_neg hnul, if_neg hmeta]

theorem lexFrom_escape (text : List Char) {tail : List Char}
    (htail : Apart tail) :
    forall digits : Option (List Char),
      lexFrom (lexState digits) (text.flatMap escapeChar ++ tail) =
        (lexFrom .text tail).map (fun ls => lexemesFrom digits text ++ ls) := by
  induction text with
  | nil =>
      intro digits
      cases digits with
      | none =>
          change lexFrom .text tail = _
          cases lexFrom .text tail <;> rfl
      | some digits => exact lexFrom_octal_end htail
  | cons c rest ih =>
      have htext : lexFrom .text (escapeChar c ++
            (rest.flatMap escapeChar ++ tail)) =
          (lexFrom .text tail).map
            (fun ls => lexemesFrom none (c :: rest) ++ ls) := by
        by_cases hc : c = nul
        · subst c
          rw [lexFrom_nul]
          exact ih (some [])
        · rw [lexFrom_escapeChar hc]
          have hrest := ih none
          dsimp only [lexState] at hrest
          rw [hrest, map_map_except, lexemesFrom, if_neg hc]
          rfl
      intro digits
      rw [List.flatMap_cons, List.append_assoc]
      cases digits with
      | none => exact htext
      | some digits =>
          by_cases hoctal : digits.length < 2 ∧ isOctalDigit c = true
          · rw [escapeChar_octal hoctal.2, lexemesFrom, if_pos hoctal]
            change lexFrom (.octal digits) (c :: _) = _
            rw [lexFrom, if_pos hoctal]
            exact ih (some (digits ++ [c]))
          · have hsplit : lexFrom (.octal digits) (escapeChar c ++
                  (rest.flatMap escapeChar ++ tail)) =
                (lexFrom .text (escapeChar c ++
                  (rest.flatMap escapeChar ++ tail))).map
                    (fun ls => .octal digits :: ls) := by
              by_cases hdigit : isOctalDigit c = true
              · rw [escapeChar_octal hdigit]
                exact lexFrom_octal hoctal _
              · rcases escapeChar_head (Bool.eq_false_iff.mpr hdigit) with
                  ⟨d, out, hout, hd⟩
                rw [hout]
                apply lexFrom_octal
                rintro ⟨_, h⟩
                rw [hd] at h
                cases h
            change lexFrom (.octal digits) _ = _
            rw [hsplit, htext, map_map_except, lexemesFrom_octal hoctal]
            rfl

/-! ## What the escaped text stands for -/

theorem lexemeOf_value (c : Char) : (lexemeOf c).value = c := by
  unfold lexemeOf
  split
  · next h =>
      rw [h]
      rfl
  · split <;> rfl

theorem nulSafe_cons {c : Char} {rest : List Char} (h : NulSafe (c :: rest)) :
    NulSafe rest :=
  List.IsChain.tail h

theorem lexemesFrom_safe (text : List Char) :
    (NulSafe text -> lexemesFrom none text = text.map lexemeOf) ∧
      (NulSafe (nul :: text) ->
        lexemesFrom (some []) text = (nul :: text).map lexemeOf) := by
  induction text with
  | nil => exact ⟨fun _ => rfl, fun _ => rfl⟩
  | cons c rest ih =>
      have hnone : NulSafe (c :: rest) ->
          lexemesFrom none (c :: rest) = (c :: rest).map lexemeOf := by
        intro h
        rw [lexemesFrom]
        split
        · next hc =>
            subst c
            exact ih.2 h
        · exact congrArg (fun ls => lexemeOf c :: ls) (ih.1 (nulSafe_cons h))
      constructor
      · exact hnone
      · intro h
        have hc : isOctalDigit c = false := (List.isChain_cons_cons.mp h).1 rfl
        rw [lexemesFrom_octal (by simp [hc]), hnone (nulSafe_cons h)]
        rfl

theorem lexemes_safe {text : List Char} (h : NulSafe text) :
    lexemes text = text.map lexemeOf :=
  (lexemesFrom_safe text).1 h

theorem lexemesFrom_length (text : List Char) :
    (lexemesFrom none text).length ≤ text.length ∧
      forall digits, (lexemesFrom (some digits) text).length ≤
        text.length + 1 := by
  induction text with
  | nil => exact ⟨Nat.le_refl 0, fun digits => Nat.le_refl 1⟩
  | cons c rest ih =>
      constructor
      · rw [lexemesFrom]
        split
        · exact ih.2 []
        · exact Nat.succ_le_succ ih.1
      · intro digits
        rw [lexemesFrom]
        split
        · exact Nat.le_succ_of_le (ih.2 (digits ++ [c]))
        · split
          · exact Nat.succ_le_succ (ih.2 [])
          · exact Nat.succ_le_succ (Nat.succ_le_succ ih.1)

/-- A NUL in front of an octal digit is merged with it. -/
theorem lexemesFrom_shorter (text : List Char) :
    (¬ NulSafe text -> (lexemesFrom none text).length < text.length) ∧
      (¬ NulSafe (nul :: text) ->
        (lexemesFrom (some []) text).length < text.length + 1) := by
  induction text with
  | nil =>
      constructor
      · intro h
        exact absurd List.IsChain.nil h
      · intro h
        exact absurd (List.IsChain.singleton nul) h
  | cons c rest ih =>
      have hnone : ¬ NulSafe (c :: rest) ->
          (lexemesFrom none (c :: rest)).length < (c :: rest).length := by
        intro h
        rw [lexemesFrom]
        split
        · next hc =>
            subst c
            exact ih.2 h
        · next hc =>
            apply Nat.succ_lt_succ
            apply ih.1
            intro hrest
            apply h
            cases rest with
            | nil => exact List.IsChain.singleton c
            | cons d rest =>
                exact List.isChain_cons_cons.mpr ⟨fun hnul => absurd hnul hc, hrest⟩
      constructor
      · exact hnone
      · intro h
        cases hc : isOctalDigit c with
        | true =>
            rw [lexemesFrom, if_pos ⟨by decide, hc⟩]
            exact Nat.lt_succ_of_le ((lexemesFrom_length rest).2 _)
        | false =>
            have hrest : ¬ NulSafe (c :: rest) := fun hsafe =>
              h (List.isChain_cons_cons.mpr ⟨fun _ => hc, hsafe⟩)
            rw [lexemesFrom_octal (by simp [hc])]
            exact Nat.succ_lt_succ (hnone hrest)

theorem lexemes_shorter {text : List Char} (h : ¬ NulSafe text) :
    (lexemes text).length < text.length :=
  (lexemesFrom_shorter text).1 h

/-! ## Escaped text outside of a class -/

/-- It is no operator outside of a class. -/
def Lexeme.Inert : Lexeme -> Prop
  | .plain c => c ∉ metacharacters
  | .quoted _ => True
  | .octal _ => True

theorem lexemeOf_inert (c : Char) : (lexemeOf c).Inert := by
  unfold lexemeOf
  split
  · trivial
  · split
    · trivial
    · next h => exact h

theorem lexemesFrom_inert (text : List Char) :
    forall digits, forall l, l ∈ lexemesFrom digits text -> l.Inert := by
  induction text with
  | nil =>
      intro digits l hl
      cases digits with
      | none => cases hl
      | some digits =>
          rw [lexemesFrom, List.mem_singleton] at hl
          subst l
          trivial
  | cons c rest ih =>
      have hnone : forall l, l ∈ lexemesFrom none (c :: rest) -> l.Inert := by
        intro l hl
        rw [lexemesFrom] at hl
        split at hl
        · exact ih (some []) l hl
        · rcases List.mem_cons.mp hl with hhead | hrest
          · rw [hhead]
            exact lexemeOf_inert c
          · exact ih none l hrest
      intro digits l hl
      cases digits with
      | none => exact hnone l hl
      | some digits =>
          by_cases hoctal : digits.length < 2 ∧ isOctalDigit c = true
          · rw [lexemesFrom, if_pos hoctal] at hl
            exact ih (some (digits ++ [c])) l hl
          · rw [lexemesFrom_octal hoctal] at hl
            rcases List.mem_cons.mp hl with hhead | hrest
            · rw [hhead]
              trivial
            · exact hnone l hrest

theorem readLexeme_outside {l : Lexeme} (h : l.Inert) (repeatable : Bool)
    (rest : List Lexeme) :
    readLexeme (.outside repeatable) l rest =
      .ok (some (.literal l.value), .outside true) := by
  cases l with
  | plain c =>
      have hne (d : Char) (hd : d ∈ metacharacters) : c ≠ d := by
        rintro rfl
        exact h hd
      have hgroup : c ∉ ['|', '(', ')', '?', '+', '{'] := by
        intro hmem
        apply h
        have hall : ['|', '(', ')', '?', '+', '{'].all
            (fun d => d ∈ metacharacters) = true := by decide
        exact of_decide_eq_true (List.all_eq_true.mp hall c hmem)
      dsimp only [readLexeme, readChar, Lexeme.value]
      rw [if_neg (hne '\\' (by decide)), if_neg (hne '[' (by decide)),
        if_neg (hne '.' (by decide)), if_neg (hne '*' (by decide)),
        if_neg (hne '^' (by decide)), if_neg (hne '$' (by decide)),
        if_neg hgroup]
  | quoted c => rfl
  | octal digits => rfl

theorem readFrom_outside {ls : List Lexeme} (h : forall l, l ∈ ls -> l.Inert) :
    forall repeatable, readFrom (.outside repeatable) ls =
      .ok (ls.map (fun l => .literal l.value)) := by
  induction ls with
  | nil =>
      intro repeatable
      rfl
  | cons l ls ih =>
      intro repeatable
      have hl := readLexeme_outside (h l List.mem_cons_self) repeatable ls
      have hls := ih (fun l' hl' => h l' (List.mem_cons_of_mem l hl')) true
      rw [readFrom, hl]
      dsimp only
      rw [hls]
      rfl

/-- Escaped text is read as the characters of its lexemes. -/
theorem read_escape (text : List Char) :
    read (text.flatMap escapeChar) =
      .ok (((lexemes text).map Lexeme.value).map Token.literal) := by
  have hend : Apart [] := fun c h => by cases h
  have hlex := lexFrom_escape text hend none
  rw [List.append_nil] at hlex
  have hlexed : lexFrom .text (text.flatMap escapeChar) = .ok (lexemes text) := by
    rw [show lexFrom .text (text.flatMap escapeChar) = _ from hlex]
    exact congrArg Except.ok (List.append_nil _)
  rw [read, hlexed]
  change readFrom (.outside false) (lexemes text) = _
  rw [List.map_map]
  exact readFrom_outside (lexemesFrom_inert text none) false

/-- The escaped text matches the text and nothing else unless the escape of a
NUL is merged with a digit. -/
theorem escape_exact_iff (newline : List Char -> Bool) (text : List Char) :
    (forall start subject after,
      (exists tokens, read (text.flatMap escapeChar) = .ok tokens ∧
        MatchesAt newline tokens start subject after) <->
          subject = text ++ after) <->
      NulSafe text := by
  have hmatch (start : Bool) (subject after : List Char) :
      (exists tokens, read (text.flatMap escapeChar) = .ok tokens ∧
        MatchesAt newline tokens start subject after) <->
          subject = (lexemes text).map Lexeme.value ++ after := by
    rw [read_escape]
    constructor
    · rintro ⟨tokens, htokens, h⟩
      cases htokens
      exact (matchesAt_literals _).mp h
    · intro h
      exact ⟨_, rfl, (matchesAt_literals _).mpr h⟩
  constructor
  · intro h
    by_contra hsafe
    have hshort := lexemes_shorter hsafe
    have hwhole := (h true text []).mpr (List.append_nil text).symm
    have heq := (hmatch true text []).mp hwhole
    rw [List.append_nil] at heq
    have hlength : text.length = (lexemes text).length :=
      (congrArg List.length heq).trans (List.length_map _)
    omega
  · intro hsafe start subject after
    have hvalues : (lexemes text).map Lexeme.value = text := by
      rw [lexemes_safe hsafe, List.map_map]
      exact (List.map_congr_left (fun c _ => lexemeOf_value c)).trans
        (List.map_id text)
    rw [hmatch, hvalues]

end Pcre
