import Mathlib.Algebra.GroupWithZero.Nat
import SciTECO.Glob.Validity
import SciTECO.Lib.PcreMatching

/-!
# The language of glob patterns

The names which a glob pattern stands for, compared with those which the
compiled pattern accepts.
-/

namespace SciTECO
namespace Glob

open Pcre

/-! ## The documented language -/

/-- A character is a member of a set with ranges. -/
def isMember (d : Char) : List Char -> Bool
  | a :: '-' :: b :: rest => (a ≤ d && d ≤ b) || isMember d rest
  | a :: rest => d == a || isMember d rest
  | [] => false

/-- The name is one for which the pattern stands. -/
def fnmatch : List Char -> List Char -> Bool
  | [], name => name.isEmpty
  | c :: rest, name =>
      if c = '*' then
        (List.range (name.length + 1)).any (fun n => fnmatch rest (name.drop n))
      else
        match name with
        | [] => false
        | d :: name =>
            if c = '?' then fnmatch rest name
            else if c = '[' ∧ ']' ∈ rest then
              match _h : splitClass (negation rest).2 with
              | none => false
              | some (members, after) =>
                  (isMember d members != (negation rest).1) &&
                    fnmatch after name
            else d == c && fnmatch rest name
termination_by pattern => pattern.length
decreasing_by
  all_goals simp only [List.length_cons]
  · omega
  · omega
  · have hsplit := splitClass_length _h
    have hnegation := negation_length rest
    omega
  · omega

/-- Every bracket is either behind the last closing one or opens a set which is
closed, whose ranges are in order and which does not begin like the name of a
class. -/
def BracketsClosed : List Char -> Prop
  | [] => True
  | c :: rest =>
      if c = '[' ∧ ']' ∈ rest then
        match _h : splitClass (negation rest).2 with
        | none => False
        | some (members, after) =>
            RangesOrdered members ∧
              (forall first, rest.head? = some first ->
                isPosixDelimiter first = false) ∧
              BracketsClosed after
      else BracketsClosed rest
termination_by pattern => pattern.length
decreasing_by
  · have hsplit := splitClass_length _h
    have hnegation := negation_length rest
    simp only [List.length_cons]
    omega
  · simp

theorem negation_rest {rest : List Char} (h : (negation rest).1 = false) :
    (negation rest).2 = rest := by
  revert h
  unfold negation
  split
  · intro h
    cases h
  · intro h
    cases h
  · intro _
    rfl

/-- Where the brackets are closed, PCRE reads them. -/
theorem BracketsClosed.classesSound {pattern : List Char}
    (h : BracketsClosed pattern) : ClassesSound pattern := by
  induction pattern using ClassesSound.induct with
  | case1 =>
      rw [ClassesSound]
      trivial
  | case2 c rest hclass hnone =>
      rw [BracketsClosed, if_pos hclass, hnone] at h
      cases h
  | case3 c rest hclass members after hsome ih =>
      rw [BracketsClosed, if_pos hclass, hsome] at h
      rcases h with ⟨hordered, hfirst, hafter⟩
      rw [ClassesSound, if_pos hclass, hsome]
      refine ⟨hordered, ?_, ih hafter⟩
      rintro hneg ⟨delimiter, name, hmembers, hdelimiter, _⟩
      rcases splitClass_some hsome with ⟨first, ms, htext, hmembers', _⟩
      rw [negation_rest hneg] at htext
      rw [hmembers] at hmembers'
      cases hmembers'
      have hnot := hfirst delimiter (by rw [htext]; rfl)
      rw [hdelimiter] at hnot
      cases hnot
  | case4 c rest hclass ih =>
      rw [BracketsClosed, if_neg hclass] at h
      rw [ClassesSound, if_neg hclass]
      exact ih h

/-! ## The tokens match the language -/

theorem classItems_contains (d : Char) (members : List Char) :
    (classItems members).any (ClassItem.contains d) = isMember d members := by
  induction members using classItems.induct with
  | case1 a b rest ih =>
      rw [classItems, isMember, List.any_cons, ih]
      rfl
  | case2 a rest hrange ih =>
      rw [classItems, isMember, List.any_cons, ih]
      · rfl
      · exact hrange
      · exact hrange
  | case3 => rfl

/-- The tokens of a pattern never begin with a star. -/
theorem tokens_head (pattern : List Char) :
    (tokens pattern).head? ≠ some .star := by
  cases pattern with
  | nil =>
      rw [tokens]
      decide
  | cons c rest =>
      by_cases hclass : c = '[' ∧ ']' ∈ rest
      · rw [tokens, if_pos hclass]
        split
        · decide
        · intro h
          cases h
      · rw [tokens_plain hclass]
        unfold plainTokens
        split
        · intro h
          cases h
        · split
          · intro h
            cases h
          · intro h
            cases h

theorem fnmatch_star {rest name : List Char} :
    fnmatch ('*' :: rest) name = true <->
      exists taken after, name = taken ++ after ∧ fnmatch rest after = true := by
  rw [fnmatch.eq_def]
  dsimp only
  rw [if_pos rfl, List.any_eq_true]
  constructor
  · rintro ⟨n, _, hmatch⟩
    exact ⟨name.take n, name.drop n, (List.take_append_drop n name).symm,
      hmatch⟩
  · rintro ⟨taken, after, rfl, hmatch⟩
    refine ⟨taken.length, ?_, ?_⟩
    · rw [List.mem_range, List.length_append]
      omega
    · rw [List.drop_left]
      exact hmatch

theorem fnmatch_any {rest name : List Char} :
    fnmatch ('?' :: rest) name = true <->
      exists d after, name = d :: after ∧ fnmatch rest after = true := by
  rw [fnmatch.eq_def]
  dsimp only
  rw [if_neg (by decide)]
  cases name with
  | nil =>
      constructor
      · intro h
        cases h
      · rintro ⟨d, after, h, _⟩
        cases h
  | cons d name =>
      dsimp only
      rw [if_pos rfl]
      constructor
      · intro h
        exact ⟨d, name, rfl, h⟩
      · rintro ⟨_, _, h, hmatch⟩
        cases h
        exact hmatch

theorem fnmatch_class {rest members after' name : List Char}
    (hmem : ']' ∈ rest)
    (hsome : splitClass (negation rest).2 = some (members, after')) :
    fnmatch ('[' :: rest) name = true <->
      exists d after, name = d :: after ∧
        (isMember d members != (negation rest).1) = true ∧
          fnmatch after' after = true := by
  rw [fnmatch.eq_def]
  dsimp only
  rw [if_neg (by decide)]
  cases name with
  | nil =>
      constructor
      · intro h
        cases h
      · rintro ⟨d, after, h, _⟩
        cases h
  | cons d name =>
      dsimp only
      rw [if_neg (by decide), if_pos ⟨rfl, hmem⟩]
      split
      · next hnone =>
          rw [hsome] at hnone
          cases hnone
      · next members' after'' hsome' =>
          rw [hsome] at hsome'
          cases hsome'
          rw [Bool.and_eq_true]
          constructor
          · rintro ⟨hmember, hmatch⟩
            exact ⟨d, name, rfl, hmember, hmatch⟩
          · rintro ⟨_, _, h, hmember, hmatch⟩
            cases h
            exact ⟨hmember, hmatch⟩

theorem fnmatch_plain {c : Char} {rest name : List Char} (hstar : c ≠ '*')
    (hany : c ≠ '?') (hclass : ¬ (c = '[' ∧ ']' ∈ rest)) :
    fnmatch (c :: rest) name = true <->
      exists after, name = c :: after ∧ fnmatch rest after = true := by
  rw [fnmatch.eq_def]
  dsimp only
  rw [if_neg hstar]
  cases name with
  | nil =>
      constructor
      · intro h
        cases h
      · rintro ⟨after, h, _⟩
        cases h
  | cons d name =>
      dsimp only
      rw [if_neg hany, if_neg hclass, Bool.and_eq_true, beq_iff_eq]
      constructor
      · rintro ⟨rfl, hmatch⟩
        exact ⟨name, rfl, hmatch⟩
      · rintro ⟨after, h, hmatch⟩
        cases h
        exact ⟨rfl, hmatch⟩

section

variable {newline : List Char -> Bool}

/-- A token for one character in front of the tokens of a pattern. -/
theorem matchesAt_cons {atom : Token} (hatom : atom.IsAtom)
    {pattern rest : List Char}
    (hpattern : forall name, fnmatch pattern name = true <->
      exists d name', name = d :: name' ∧ atom.accepts d = true ∧
        fnmatch rest name' = true)
    (ih : forall start text after,
      MatchesAt newline (tokens rest) start text after <->
        exists name, text = name ++ after ∧ fnmatch rest name = true ∧
          (after = [] ∨ newline after = true))
    (start : Bool) (text after : List Char) :
    MatchesAt newline (atom :: tokens rest) start text after <->
      exists name, text = name ++ after ∧ fnmatch pattern name = true ∧
        (after = [] ∨ newline after = true) := by
  rw [matchesAt_atom hatom (tokens_head rest)]
  constructor
  · rintro ⟨d, text', rfl, haccepts, hmatch⟩
    rcases (ih _ _ _).mp hmatch with ⟨name, rfl, hname, hend⟩
    refine ⟨d :: name, rfl, ?_, hend⟩
    exact (hpattern _).mpr ⟨d, name, rfl, haccepts, hname⟩
  · rintro ⟨name, rfl, hname, hend⟩
    rcases (hpattern _).mp hname with ⟨d, name', rfl, haccepts, hmatch⟩
    refine ⟨d, name' ++ after, rfl, haccepts, ?_⟩
    exact (ih _ _ _).mpr ⟨name', rfl, hmatch, hend⟩

/-- The tokens of a pattern match the names for which it stands, up to the end
of the subject or a newline there. -/
theorem matchesAt_tokens {pattern : List Char} (hsound : ClassesSound pattern) :
    forall start text after,
      MatchesAt newline (tokens pattern) start text after <->
        exists name, text = name ++ after ∧ fnmatch pattern name = true ∧
          (after = [] ∨ newline after = true) := by
  induction pattern using ClassesSound.induct with
  | case1 =>
      intro start text after
      rw [tokens]
      change (text = [] ∨ newline text = true) ∧ after = text <-> _
      constructor
      · rintro ⟨hend, rfl⟩
        refine ⟨[], rfl, ?_, hend⟩
        rw [fnmatch]
        rfl
      · rintro ⟨name, rfl, hmatch, hend⟩
        rw [fnmatch] at hmatch
        rw [List.isEmpty_iff.mp hmatch]
        exact ⟨hend, rfl⟩
  | case2 c rest hclass hnone =>
      rw [ClassesSound, if_pos hclass, hnone] at hsound
      cases hsound
  | case3 c rest hclass members after' hsome ih =>
      rw [ClassesSound, if_pos hclass, hsome] at hsound
      rw [tokens, if_pos hclass, hsome]
      apply matchesAt_cons (isAtom_set _ _) _ (ih hsound.2.2)
      intro name
      rw [hclass.1, fnmatch_class hclass.2 hsome]
      unfold Token.accepts
      simp only [classItems_contains]
  | case4 c rest hclass ih =>
      rw [ClassesSound, if_neg hclass] at hsound
      rw [tokens_plain hclass]
      unfold plainTokens
      by_cases hstar : c = '*'
      · rw [if_pos hstar, hstar]
        intro start text after
        change MatchesAt newline (.any :: .star :: tokens rest) start text after
          <-> _
        rw [matchesAt_star isAtom_any]
        constructor
        · rintro ⟨taken, text', rfl, _, hmatch⟩
          rcases (ih hsound _ _ _).mp hmatch with ⟨name, rfl, hname, hend⟩
          refine ⟨taken ++ name, (List.append_assoc _ _ _).symm, ?_, hend⟩
          exact fnmatch_star.mpr ⟨taken, name, rfl, hname⟩
        · rintro ⟨name, rfl, hname, hend⟩
          rcases fnmatch_star.mp hname with ⟨taken, name', rfl, hmatch⟩
          refine ⟨taken, name' ++ after, List.append_assoc _ _ _,
            fun _ _ => rfl, ?_⟩
          exact (ih hsound _ _ _).mpr ⟨name', rfl, hmatch, hend⟩
      · rw [if_neg hstar]
        by_cases hany : c = '?'
        · rw [if_pos hany, hany]
          apply matchesAt_cons isAtom_any _ (ih hsound)
          intro name
          rw [fnmatch_any]
          simp [Token.accepts]
        · rw [if_neg hany]
          apply matchesAt_cons (isAtom_literal c) _ (ih hsound)
          intro name
          rw [fnmatch_plain hstar hany hclass]
          simp [Token.accepts]

end

/-! ## The compiled pattern -/

/-- The length of a text in UTF-8. -/
def byteLength (text : List Char) : Nat := (text.map Char.utf8Size).sum

theorem byteLength_append (text text' : List Char) :
    byteLength (text ++ text') = byteLength text + byteLength text' := by
  unfold byteLength
  rw [List.map_append, List.sum_append]

/-- What is written for a character: the character itself, which may be escaped,
or at most two bytes. -/
theorem compileChar_written (state : CompileState) (c : Char)
    (rest : List Char) :
    (compileChar state c rest).2 = [c] ∨
      (compileChar state c rest).2 = ['\\', c] ∨
      (compileChar state c rest).2 ∈
        [['.', '*'], ['.'], ['['], ['\\', '['], ['!'], ['^'], [']']] := by
  cases state <;> simp only [compileChar] <;> split_ifs <;> simp

theorem byteLength_compileChar (state : CompileState) (c : Char)
    (rest : List Char) :
    byteLength (compileChar state c rest).2 ≤ 2 * c.utf8Size := by
  have hpos := Char.utf8Size_pos c
  rcases compileChar_written state c rest with hout | hout | hout
  · have hlength : byteLength [c] = c.utf8Size := rfl
    rw [hout, hlength]
    omega
  · have hlength : byteLength ['\\', c] = 1 + c.utf8Size := rfl
    rw [hout, hlength]
    omega
  · have hshort : forall out, out ∈ ([['.', '*'], ['.'], ['['], ['\\', '['],
        ['!'], ['^'], [']']] : List (List Char)) -> byteLength out ≤ 2 := by
      decide
    have hlength := hshort _ hout
    omega

/-- The output fits into the buffer of two bytes for each byte of the pattern
and two more, of which the last one is for the null byte. -/
theorem byteLength_compilePattern (pattern : List Char) :
    byteLength (compilePattern pattern) + 1 ≤ byteLength pattern * 2 + 1 + 1 := by
  have hfrom : forall state,
      byteLength (compileFrom state pattern) ≤ byteLength pattern * 2 + 1 := by
    induction pattern with
    | nil =>
        intro state
        exact Nat.le_refl 1
    | cons c rest ih =>
        intro state
        have hchar := byteLength_compileChar state c rest
        have hrest := ih (compileChar state c rest).1
        have hcons : byteLength (c :: rest) = c.utf8Size + byteLength rest :=
          List.sum_cons
        rw [compileFrom, byteLength_append, hcons]
        omega
  have hpattern := hfrom .wildcard
  unfold compilePattern
  omega

section

variable {newline : List Char -> Bool} {pattern : List Char}

/-- The compiled pattern accepts the names for which the pattern stands, also
with a newline behind them. -/
theorem accepts_compilePattern (h : BracketsClosed pattern)
    (name : List Char) :
    Accepts newline (compilePattern pattern) name <->
      fnmatch pattern name = true ∨
        exists before behind, newline behind = true ∧
          name = before ++ behind ∧ fnmatch pattern before = true := by
  rw [accepts_iff (parse_compilePattern h.classesSound)]
  constructor
  · rintro ⟨after, hmatch⟩
    rcases (matchesAt_tokens h.classesSound _ _ _).mp hmatch with
      ⟨before, rfl, hbefore, hnil | hend⟩
    · apply Or.inl
      rw [hnil, List.append_nil]
      exact hbefore
    · exact Or.inr ⟨before, after, hend, rfl, hbefore⟩
  · intro hname
    cases hname with
    | inl hmatch =>
        exists []
        apply (matchesAt_tokens h.classesSound _ _ _).mpr
        exact ⟨name, (List.append_nil name).symm, hmatch, Or.inl rfl⟩
    | inr h' =>
        rcases h' with ⟨before, behind, hend, rfl, hbefore⟩
        exists behind
        apply (matchesAt_tokens h.classesSound _ _ _).mpr
        exact ⟨before, rfl, hbefore, Or.inr hend⟩

/-- The compiled pattern fits into its buffer, and it accepts the language of
the pattern, except for names which have a newline behind one of them. -/
theorem compilePattern_language (h : BracketsClosed pattern)
    (name : List Char) :
    byteLength (compilePattern pattern) + 1 ≤ byteLength pattern * 2 + 1 + 1 ∧
      ((Accepts newline (compilePattern pattern) name <->
          fnmatch pattern name = true) <->
        (fnmatch pattern name = true ∨
          ¬ exists before behind, newline behind = true ∧
            name = before ++ behind ∧ fnmatch pattern before = true)) := by
  refine ⟨byteLength_compilePattern pattern, ?_⟩
  rw [accepts_compilePattern h]
  by_cases hmatch : fnmatch pattern name = true
  · exact ⟨fun _ => Or.inl hmatch, fun _ => ⟨fun _ => hmatch, Or.inl⟩⟩
  · constructor
    · intro hsame
      apply Or.inr
      intro hnewline
      exact hmatch (hsame.mp (Or.inr hnewline))
    · intro hcondition
      cases hcondition with
      | inl h => exact absurd h hmatch
      | inr hnot =>
          constructor
          · intro hname
            cases hname with
            | inl h => exact absurd h hmatch
            | inr hnewline => exact absurd hnewline hnot
          · exact Or.inl

end

theorem bracketsClosed_closing : BracketsClosed ['[', ']', 'c', ']'] := by
  rw [BracketsClosed, if_pos (by decide)]
  refine ⟨trivial, ?_, ?_⟩
  · intro first hfirst
    cases hfirst
    decide
  · change BracketsClosed []
    rw [BracketsClosed]
    trivial

/-- A closing bracket at the beginning of a set is a member. -/
theorem compilePattern_language_closing :
    Accepts isNewline (compilePattern ['[', ']', 'c', ']']) [']'] <->
      fnmatch ['[', ']', 'c', ']'] [']'] = true := by
  apply (compilePattern_language bracketsClosed_closing [']']).2.mpr
  apply Or.inl
  apply (fnmatch_class (by decide) rfl).mpr
  refine ⟨']', [], rfl, by decide, ?_⟩
  change fnmatch [] [] = true
  rw [fnmatch]
  rfl

/-- A pattern of one character accepts it with a newline behind it. -/
theorem compilePattern_newline :
    BracketsClosed ['a'] ∧
      Accepts isNewline (compilePattern ['a']) ['a', '\n'] ∧
        fnmatch ['a'] ['a', '\n'] ≠ true := by
  have hclass : ¬ ('a' = '[' ∧ ']' ∈ ([] : List Char)) := by decide
  have hclosed : BracketsClosed ['a'] := by
    rw [BracketsClosed, if_neg hclass, BracketsClosed]
    trivial
  refine ⟨hclosed, ?_, ?_⟩
  · apply (accepts_compilePattern hclosed _).mpr
    apply Or.inr
    refine ⟨['a'], ['\n'], by decide, rfl, ?_⟩
    apply (fnmatch_plain (by decide) (by decide) hclass).mpr
    exists []
    constructor
    · rfl
    · rw [fnmatch]
      rfl
  · intro hmatch
    rcases (fnmatch_plain (by decide) (by decide) hclass).mp hmatch with
      ⟨after, hafter, hrest⟩
    cases hafter
    rw [fnmatch] at hrest
    cases hrest

end Glob
end SciTECO
