import SciTECO.Lib.Pcre

/-!
# Matching of PCRE patterns

What the tokens of a pattern match, where the dot matches every character and a
dollar sign also matches before a newline at the end of the subject.  Which
sequences are newlines is a parameter.
-/

namespace Pcre

/-- The member of a bracket expression stands for a character. -/
def ClassItem.contains (c : Char) : ClassItem -> Bool
  | .single d => c == d
  | .range first last => first ≤ c && c ≤ last

/-- The token is an atom which matches a character. -/
def Token.accepts (c : Char) : Token -> Bool
  | .any => true
  | .literal d => c == d
  | .set negated items => items.any (ClassItem.contains c) != negated
  | .star => false
  | .lineStart => false
  | .lineEnd => false

/-- The newlines, unless a flag restricts them. -/
def isNewline (text : List Char) : Bool :=
  text ∈ [['\n'], ['\r'], ['\r', '\n'], ['\x0b'], ['\x0c'], ['\u0085'],
    ['\u2028'], ['\u2029']]

variable (newline : List Char -> Bool)

/-- The tokens match a text from its start up to the text behind the match.
`start` tells whether this is the start of the subject. -/
def MatchesAt : List Token -> Bool -> List Char -> List Char -> Prop
  | [], _, text, after => after = text
  | .lineStart :: rest, start, text, after =>
      start = true ∧ MatchesAt rest start text after
  | .lineEnd :: rest, start, text, after =>
      (text = [] ∨ newline text = true) ∧ MatchesAt rest start text after
  | atom :: .star :: rest, start, text, after =>
      exists taken text', text = taken ++ text' ∧
        (forall c, c ∈ taken -> atom.accepts c = true) ∧
          MatchesAt rest (start && taken.isEmpty) text' after
  | atom :: rest, _, text, after =>
      exists c text', text = c :: text' ∧ atom.accepts c = true ∧
        MatchesAt rest false text' after

/-- A pattern is found at the start of a subject. -/
def Accepts (pattern subject : List Char) : Prop :=
  exists tokens after, parse pattern = .ok tokens ∧
    MatchesAt newline tokens true subject after

variable {newline} {rest : List Token} {start : Bool} {text after : List Char}

theorem accepts_iff {pattern : List Char} {tokens : List Token}
    (h : parse pattern = .ok tokens) (subject : List Char) :
    Accepts newline pattern subject <->
      exists after, MatchesAt newline tokens true subject after := by
  constructor
  · rintro ⟨tokens', after, hparse, hmatch⟩
    rw [h] at hparse
    cases hparse
    exact ⟨after, hmatch⟩
  · rintro ⟨after, hmatch⟩
    exact ⟨tokens, after, h, hmatch⟩

/-! ## The tokens one by one -/

/-- A token that stands for one character. -/
def Token.IsAtom : Token -> Prop
  | .any => True
  | .literal _ => True
  | .set _ _ => True
  | _ => False

theorem isAtom_any : Token.any.IsAtom := trivial

theorem isAtom_literal (c : Char) : (Token.literal c).IsAtom := trivial

theorem isAtom_set (negated : Bool) (items : List ClassItem) :
    (Token.set negated items).IsAtom := trivial

theorem matchesAt_atom {atom : Token} (hatom : atom.IsAtom)
    (hrest : rest.head? ≠ some .star) :
    MatchesAt newline (atom :: rest) start text after <->
      exists c text', text = c :: text' ∧ atom.accepts c = true ∧
        MatchesAt newline rest false text' after := by
  cases rest with
  | nil => cases atom <;> first | exact Iff.rfl | cases hatom
  | cons next rest =>
      cases next with
      | star => exact absurd rfl hrest
      | _ => cases atom <;> first | exact Iff.rfl | cases hatom

theorem matchesAt_star {atom : Token} (hatom : atom.IsAtom) :
    MatchesAt newline (atom :: .star :: rest) start text after <->
      exists taken text', text = taken ++ text' ∧
        (forall c, c ∈ taken -> atom.accepts c = true) ∧
          MatchesAt newline rest (start && taken.isEmpty) text' after := by
  cases atom <;> first | exact Iff.rfl | cases hatom

theorem matchesAt_literals (text : List Char) :
    forall {start : Bool} {subject after : List Char},
      MatchesAt newline (text.map Token.literal) start subject after <->
        subject = text ++ after := by
  induction text with
  | nil =>
      intro start subject after
      exact eq_comm
  | cons c text ih =>
      intro start subject after
      have hrest : (text.map Token.literal).head? ≠ some .star := by
        cases text with
        | nil => exact fun h => by cases h
        | cons d text => exact fun h => by cases h
      rw [List.map_cons, matchesAt_atom (isAtom_literal c) hrest]
      constructor
      · rintro ⟨d, subject', rfl, hd, hmatch⟩
        have hchar : d = c := by simpa [Token.accepts] using hd
        rw [hchar, ih.mp hmatch]
        rfl
      · intro h
        refine ⟨c, text ++ after, h, ?_, ih.mpr rfl⟩
        simp [Token.accepts]

end Pcre
