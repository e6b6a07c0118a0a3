import SciTECO.Glob.Validity
import SciTECO.Lib.PcreMatching

/-!
# Escaping glob patterns

`teco_globber_escape_pattern()` puts the wildcards of a file name into
brackets, so that the pattern stands for this name.
-/

namespace SciTECO
namespace Glob

open Pcre

/-- The characters which are put into brackets. -/
def wildcards : List Char := ['*', '?', '[']

/-- `teco_globber_escape_pattern()`. -/
def escapePattern : List Char -> List Char
  | [] => []
  | c :: rest =>
      if c ∈ wildcards then '[' :: c :: ']' :: escapePattern rest
      else c :: escapePattern rest

/-- What an escaped character is read as. -/
def escapedToken (c : Char) : Token :=
  if c ∈ wildcards then .set false [.single c] else .literal c

theorem escapedToken_isAtom (c : Char) : (escapedToken c).IsAtom := by
  unfold escapedToken
  split <;> trivial

theorem escapedToken_accepts (c d : Char) :
    (escapedToken c).accepts d = true <-> d = c := by
  unfold escapedToken
  split
  · simp [Token.accepts, ClassItem.contains]
  · simp [Token.accepts]

/-! ## An escaped name is read character by character -/

theorem negation_wildcard {c : Char} (hc : c ∈ wildcards)
    (rest : List Char) : negation (c :: rest) = (false, c :: rest) := by
  unfold negation
  split
  · next heq =>
      rw [(List.cons.inj heq).1] at hc
      exact absurd hc (by decide)
  · next heq =>
      rw [(List.cons.inj heq).1] at hc
      exact absurd hc (by decide)
  · rfl

/-- The class of one wildcard. -/
theorem splitClass_wildcard {c : Char} (hc : c ∈ wildcards)
    (rest : List Char) :
    splitClass (negation (c :: ']' :: rest)).2 = some ([c], rest) := by
  rw [negation_wildcard hc]
  simp [splitClass]

/-- Outside of the brackets no bracket is opened. -/
theorem plain_of_not_wildcard {c : Char} (hc : c ∉ wildcards)
    (rest : List Char) : ¬ (c = '[' ∧ ']' ∈ rest) := by
  rintro ⟨rfl, _⟩
  exact hc (by decide)

theorem escapePattern_sound (str : List Char) :
    ClassesSound (escapePattern str) := by
  induction str with
  | nil =>
      rw [escapePattern, ClassesSound]
      trivial
  | cons c rest ih =>
      rw [escapePattern]
      by_cases hc : c ∈ wildcards
      · rw [if_pos hc, ClassesSound, if_pos ⟨rfl, by simp⟩,
          splitClass_wildcard hc]
        refine ⟨trivial, ?_, ih⟩
        rintro _ ⟨delimiter, name, hmembers, _, hlast, _⟩
        cases hmembers
        cases hlast
      · rw [if_neg hc, ClassesSound,
          if_neg (plain_of_not_wildcard hc _)]
        exact ih

theorem tokens_escapePattern (str : List Char) :
    tokens (escapePattern str) = str.map escapedToken ++ [.lineEnd] := by
  induction str with
  | nil =>
      rw [escapePattern, tokens]
      rfl
  | cons c rest ih =>
      rw [escapePattern, List.map_cons, List.cons_append, ← ih]
      by_cases hc : c ∈ wildcards
      · rw [if_pos hc, tokens, if_pos ⟨rfl, by simp⟩, splitClass_wildcard hc,
          negation_wildcard hc]
        unfold escapedToken
        rw [if_pos hc]
        rfl
      · rw [if_neg hc, tokens_plain (plain_of_not_wildcard hc _)]
        have hstar : c ≠ '*' := fun h => hc (by rw [h]; decide)
        have hany : c ≠ '?' := fun h => hc (by rw [h]; decide)
        unfold plainTokens escapedToken
        rw [if_neg hc, if_neg hstar, if_neg hany]
        rfl

/-! ## An escaped name matches itself -/

section

variable {newline : List Char -> Bool}

theorem matchesAt_escaped (str : List Char) :
    forall start text after,
      MatchesAt newline (str.map escapedToken ++ [.lineEnd]) start text after <->
        text = str ++ after ∧ (after = [] ∨ newline after = true) := by
  induction str with
  | nil =>
      intro start text after
      change (text = [] ∨ newline text = true) ∧ after = text <-> _
      constructor
      · rintro ⟨hend, rfl⟩
        exact ⟨rfl, hend⟩
      · rintro ⟨rfl, hend⟩
        exact ⟨hend, rfl⟩
  | cons c rest ih =>
      intro start text after
      have hhead : (rest.map escapedToken ++ [Token.lineEnd]).head? ≠
          some Token.star := by
        cases rest with
        | nil => decide
        | cons d rest =>
            have hatom := escapedToken_isAtom d
            intro h
            rw [Option.some.inj h] at hatom
            exact hatom
      rw [List.map_cons, List.cons_append,
        matchesAt_atom (escapedToken_isAtom c) hhead]
      constructor
      · rintro ⟨d, text', rfl, haccepts, hmatch⟩
        rw [(escapedToken_accepts c d).mp haccepts]
        rcases (ih _ _ _).mp hmatch with ⟨rfl, hend⟩
        exact ⟨rfl, hend⟩
      · rintro ⟨rfl, hend⟩
        refine ⟨c, rest ++ after, rfl, (escapedToken_accepts c c).mpr rfl, ?_⟩
        exact (ih _ _ _).mpr ⟨rfl, hend⟩

/-- An escaped name matches itself, and itself with a newline behind it. -/
theorem accepts_escaped (str name : List Char) :
    Accepts newline (compilePattern (escapePattern str)) name <->
      name = str ∨ exists behind, newline behind = true ∧
        name = str ++ behind := by
  rw [accepts_iff (parse_compilePattern (escapePattern_sound str)),
    tokens_escapePattern]
  constructor
  · rintro ⟨after, hmatch⟩
    rcases (matchesAt_escaped str _ _ _).mp hmatch with ⟨rfl, hnil | hend⟩
    · apply Or.inl
      rw [hnil, List.append_nil]
    · exact Or.inr ⟨after, hend, rfl⟩
  · intro h
    cases h with
    | inl heq =>
        exists []
        apply (matchesAt_escaped str _ _ _).mpr
        rw [heq, List.append_nil]
        exact ⟨rfl, Or.inl rfl⟩
    | inr h =>
        rcases h with ⟨behind, hend, heq⟩
        exists behind
        exact (matchesAt_escaped str _ _ _).mpr ⟨heq, Or.inr hend⟩

/-- Escaping is exact unless the other name has a newline at its end. -/
theorem escapePattern_exact_iff (hnil : newline [] = false)
    (str name : List Char) :
    (Accepts newline (compilePattern (escapePattern str)) name <->
      name = str) <->
      ¬ exists behind, newline behind = true ∧ name = str ++ behind := by
  rw [accepts_escaped]
  constructor
  · rintro hexact ⟨behind, hend, hname⟩
    have heq := hexact.mp (Or.inr ⟨behind, hend, hname⟩)
    rw [heq, List.self_eq_append_right] at hname
    rw [hname, hnil] at hend
    cases hend
  · intro hnot
    constructor
    · intro h
      cases h with
      | inl heq => exact heq
      | inr h => exact absurd h hnot
    · exact Or.inl

end

theorem escapePattern_exact_wildcard :
    Accepts isNewline (compilePattern (escapePattern ['*'])) ['a'] <->
      ['a'] = ['*'] := by
  apply (escapePattern_exact_iff (by decide) ['*'] ['a']).mpr
  rintro ⟨behind, _, hname⟩
  cases hname

/-- The dollar sign admits a newline behind the name. -/
theorem escapePattern_newline :
    Accepts isNewline (compilePattern (escapePattern ['a'])) ['a', '\n'] ∧
      ['a', '\n'] ≠ ['a'] := by
  constructor
  · apply (accepts_escaped ['a'] ['a', '\n']).mpr
    apply Or.inr
    exact ⟨['\n'], by decide, rfl⟩
  · decide

end Glob
end SciTECO
