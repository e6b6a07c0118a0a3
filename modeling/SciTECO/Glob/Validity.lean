import Mathlib.Data.List.TakeWhile
import SciTECO.Glob.Pattern

/-!
# Validity of compiled glob patterns

A compiled pattern is read by PCRE if and only if every class of the glob
pattern is closed behind its first member, has no range in reverse order and
does not look like the name of a POSIX class.
-/

namespace SciTECO
namespace Glob

open Pcre

/-! ## The members of a class as they are written -/

/-- A member of a class in the compiled pattern. -/
def escapeMember (c : Char) : List Char :=
  if c = ']' ∨ c = '\\' ∨ c = '[' then ['\\', c] else [c]

def escapeMembers (members : List Char) : List Char :=
  members.flatMap escapeMember

@[simp] theorem escapeMembers_nil : escapeMembers [] = [] := rfl

@[simp] theorem escapeMembers_cons (c : Char) (members : List Char) :
    escapeMembers (c :: members) = escapeMember c ++ escapeMembers members :=
  rfl

/-- Behind the beginning of a class every character but the closing bracket is
a member. -/
theorem compileFrom_inClass_cons {c : Char} (hc : c ≠ ']') (rest : List Char) :
    compileFrom .inClass (c :: rest) =
      escapeMember c ++ compileFrom .inClass rest := by
  by_cases hbang : c = '!'
  · subst c
    simp [compileFrom, compileChar, escapeMember]
  · by_cases hcaret : c = '^'
    · subst c
      simp [compileFrom, compileChar, escapeMember]
    · by_cases hspecial : c = '\\' ∨ c = '['
      · simp [compileFrom, compileChar, escapeMember, hbang, hcaret, hc,
          hspecial]
      · simp [compileFrom, compileChar, escapeMember, hbang, hcaret, hc,
          hspecial]

theorem compileFrom_inClass_append (members rest : List Char) :
    ']' ∉ members ->
    compileFrom .inClass (members ++ rest) =
      escapeMembers members ++ compileFrom .inClass rest := by
  induction members with
  | nil =>
      intro _
      rfl
  | cons c members ih =>
      intro hmembers
      have hc : c ≠ ']' := by
        intro h
        exact hmembers (h ▸ List.mem_cons_self)
      have hrest : ']' ∉ members := fun h => hmembers (List.mem_cons_of_mem c h)
      rw [List.cons_append, compileFrom_inClass_cons hc, ih hrest]
      simp

theorem compileFrom_inClass_close (rest : List Char) :
    compileFrom .inClass (']' :: rest) =
      ']' :: compileFrom .wildcard rest := by
  simp [compileFrom, compileChar]

/-- The first member is a member whatever it is, unless it negates the class. -/
theorem compileFrom_first {state : CompileState} {first : Char}
    (hstate : state = .classNegate ∨
      (state = .classStart ∧ first ≠ '!' ∧ first ≠ '^'))
    (rest : List Char) :
    compileFrom state (first :: rest) =
      escapeMember first ++ compileFrom .inClass rest := by
  rcases hstate with hnegate | ⟨hstart, hbang, hcaret⟩
  · subst state
    by_cases hbang : first = '!'
    · subst first
      simp [compileFrom, compileChar, escapeMember]
    · by_cases hcaret : first = '^'
      · subst first
        simp [compileFrom, compileChar, escapeMember]
      · by_cases hspecial : first = ']' ∨ first = '\\' ∨ first = '['
        · simp [compileFrom, compileChar, escapeMember, hbang, hcaret, hspecial]
        · simp [compileFrom, compileChar, escapeMember, hbang, hcaret, hspecial]
  · subst state
    by_cases hspecial : first = ']' ∨ first = '\\' ∨ first = '['
    · simp [compileFrom, compileChar, escapeMember, hbang, hcaret, hspecial]
    · simp [compileFrom, compileChar, escapeMember, hbang, hcaret, hspecial]

/-! ## Reading the members -/

/-- The modes in which a member is read, and the class it is added to. -/
inductive ReadsMember : Mode -> Char -> OpenClass -> Prop where
  | inside (cls : OpenClass) (c : Char) : ReadsMember (.inside cls) c cls
  | first (negated : Bool) (c : Char) :
      ReadsMember (.first negated) c (.start negated)
  | opening (c : Char) : c ≠ '^' -> ReadsMember .opening c (.start false)

theorem read_plain_member {mode : Mode} {c : Char} {cls : OpenClass}
    (hmode : ReadsMember mode c cls)
    (hc : ¬ (c = ']' ∨ c = '\\' ∨ c = '[')) (rest : List Char) :
    readChar mode c rest =
      (cls.add c).map fun cls => (none, Mode.inside cls) := by
  have hclose : c ≠ ']' := fun h => hc (.inl h)
  have hescape : c ≠ '\\' := fun h => hc (.inr (.inl h))
  have hopen : c ≠ '[' := fun h => hc (.inr (.inr h))
  have hmember : readMember cls c rest = (cls.add c).map Mode.inside := by
    simp [readMember, hescape, hopen]
  cases hmode with
  | inside =>
      simp only [readChar, hclose, if_false, hmember]
      cases cls.add c <;> rfl
  | first negated =>
      simp only [readChar, hmember]
      cases (OpenClass.start negated).add c <;> rfl
  | opening _ hcaret =>
      simp only [readChar, hcaret, if_false, hmember]
      cases (OpenClass.start false).add c <;> rfl

theorem read_backslash {mode : Mode} {c : Char} {cls : OpenClass}
    (hmode : ReadsMember mode c cls) (rest : List Char) :
    readChar mode '\\' rest = .ok (none, .insideEscape cls) := by
  cases hmode with
  | inside => simp [readChar, readMember, Except.map]
  | first negated => simp [readChar, readMember, Except.map]
  | opening _ hcaret => simp [readChar, readMember, Except.map]

/-- An escaped member is the member. -/
theorem parseFrom_escapeMember {mode : Mode} {c : Char} {cls : OpenClass}
    (hmode : ReadsMember mode c cls) (tail : List Char) :
    parseFrom mode (escapeMember c ++ tail) =
      (cls.add c).bind fun cls => parseFrom (.inside cls) tail := by
  by_cases hc : c = ']' ∨ c = '\\' ∨ c = '['
  · have hminus : c ≠ '-' := by
      rcases hc with h | h | h <;> subst h <;> decide
    have hletter : c.isAlphanum = false := by
      rcases hc with h | h | h <;> subst h <;> decide
    have hread : readChar (.insideEscape cls) c tail =
        (cls.literal c).map fun cls => (none, Mode.inside cls) := by
      simp [readChar, hletter]
    rw [escapeMember, if_pos hc, List.cons_append, List.cons_append,
      List.nil_append, parseFrom_silent (read_backslash hmode _)]
    rw [OpenClass.add, if_neg hminus]
    cases hliteral : cls.literal c with
    | error e =>
        rw [hliteral] at hread
        exact parseFrom_error hread
    | ok cls' =>
        rw [hliteral] at hread
        exact parseFrom_silent hread
  · have hread := read_plain_member hmode hc tail
    rw [escapeMember, if_neg hc, List.cons_append, List.nil_append]
    cases hadd : cls.add c with
    | error e =>
        rw [hadd] at hread
        exact parseFrom_error hread
    | ok cls' =>
        rw [hadd] at hread
        exact parseFrom_silent hread

theorem parseFrom_escapeMembers (members tail : List Char) :
    forall cls,
      parseFrom (.inside cls) (escapeMembers members ++ tail) =
        (cls.addAll members).bind fun cls => parseFrom (.inside cls) tail := by
  induction members with
  | nil =>
      intro cls
      rfl
  | cons c members ih =>
      intro cls
      rw [escapeMembers_cons, List.append_assoc,
        parseFrom_escapeMember (.inside cls c), OpenClass.addAll]
      cases cls.add c with
      | error e => rfl
      | ok cls' => exact ih cls'

/-! ## Names of POSIX classes -/

/-- The text behind a member begins with the delimiter only if the next member
is the delimiter, and with a closing bracket only behind the last member. -/
theorem escapeMembers_head (members out : List Char) :
    ']' ∉ members ->
    exists c rest,
      escapeMembers members ++ ']' :: out = c :: rest ∧
        (c = ']' <-> members = []) ∧
        (forall t, isPosixDelimiter t = true ->
          (c = t <-> members.head? = some t)) := by
  intro hmembers
  cases members with
  | nil =>
      refine ⟨']', out, rfl, by simp, ?_⟩
      intro t ht
      constructor
      · intro h
        subst t
        cases ht
      · intro h
        cases h
  | cons d members =>
      have hclose : d ≠ ']' := by
        intro h
        exact hmembers (h ▸ List.mem_cons_self)
      by_cases hd : d = '\\' ∨ d = '['
      · refine ⟨'\\', d :: (escapeMembers members ++ ']' :: out),
          by simp [escapeMember, hd], by simp, ?_⟩
        intro t ht
        constructor
        · intro h
          subst t
          cases ht
        · intro h
          cases h
          rcases hd with h | h <;> subst h <;> cases ht
      · exists d, escapeMembers members ++ ']' :: out
        exact ⟨by simp [escapeMember, hclose, hd], by simp [hclose], by simp⟩

/-- Only the last member can end the name, unless a bracket stands in front of
another delimiter. -/
theorem posixName_members {t : Char} (ht : isPosixDelimiter t = true)
    (members out : List Char) :
    ']' ∉ members ->
    (posixName t (escapeMembers members ++ ']' :: out) = true <->
      members.getLast? = some t ∧ ¬ ['[', t] <:+: members) := by
  have hbackslash : t ≠ '\\' := by rintro rfl; cases ht
  have hopen : t ≠ '[' := by rintro rfl; cases ht
  have hclose : t ≠ ']' := by rintro rfl; cases ht
  induction members with
  | nil =>
      intro _
      cases out with
      | nil => simp [posixName]
      | cons c out => simp [posixName]
  | cons c members ih =>
      intro hmembers
      have hc : c ≠ ']' := by
        intro h
        exact hmembers (h ▸ List.mem_cons_self)
      have hrest : ']' ∉ members := fun h => hmembers (List.mem_cons_of_mem c h)
      rcases escapeMembers_head members out hrest with
        ⟨next, tail, htext, hend, hnext⟩
      have hih := ih hrest
      rw [escapeMembers_cons, List.append_assoc]
      rw [htext] at hih ⊢
      by_cases hc1 : c = '\\'
      · subst c
        have hstep : posixName t ('\\' :: '\\' :: next :: tail) =
            posixName t (next :: tail) := by
          simp [posixName]
        have htail : posixName t (escapeMember '\\' ++ next :: tail) = true <->
            posixName t (next :: tail) = true := by
          rw [← hstep]
          rfl
        rw [htail, hih, getLast?_cons_ne hbackslash.symm, pair_infix_cons]
        simp
      · by_cases hc2 : c = '['
        · subst c
          have hstep : posixName t ('\\' :: '[' :: next :: tail) =
              posixName t ('[' :: next :: tail) := by
            simp [posixName, hbackslash.symm]
          have hopened : posixName t ('[' :: next :: tail) =
              (if next = t then false else posixName t (next :: tail)) := by
            simp [posixName, hopen.symm]
          have htail : posixName t (escapeMember '[' ++ next :: tail) =
              (if next = t then false else posixName t (next :: tail)) := by
            rw [← hopened, ← hstep]
            rfl
          rw [htail, getLast?_cons_ne hopen.symm, pair_infix_cons]
          by_cases hn : next = t
          · have hhead := (hnext t ht).mp hn
            simp [hn, hhead]
          · have hhead : members.head? ≠ some t :=
              fun h => hn ((hnext t ht).mpr h)
            rw [if_neg hn, hih]
            simp [hhead]
        · have hmember : escapeMember c = [c] := by
            simp [escapeMember, hc, hc1, hc2]
          have hstep : posixName t (c :: next :: tail) =
              (if c = t ∧ next = ']' then true
                else posixName t (next :: tail)) := by
            simp [posixName, hc1, hc2, hc]
          rw [hmember, List.cons_append, List.nil_append, hstep,
            pair_infix_cons]
          by_cases hlast : members = []
          · subst members
            have hn : next = ']' := hend.mpr rfl
            have hnot : posixName t (next :: tail) = true <-> False := by
              simpa using hih
            by_cases hct : c = t
            · simp [hct, hn]
            · rw [if_neg (fun h => hct h.1), hnot]
              simp [hct]
          · have hn : next ≠ ']' := fun h => hlast (hend.mp h)
            rw [if_neg (fun h => hn h.2), hih]
            have hget : (c :: members).getLast? = members.getLast? := by
              cases members with
              | nil => exact absurd rfl hlast
              | cons d members => rw [List.getLast?_cons_cons]
            have hbracket : '[' ≠ c := Ne.symm hc2
            rw [hget]
            simp [hbracket]

/-! ## Classes -/

theorem splitClass_some {text members after : List Char}
    (h : splitClass text = some (members, after)) :
    exists first ms,
      text = first :: (ms ++ ']' :: after) ∧ members = first :: ms ∧
        ']' ∉ ms := by
  cases text with
  | nil => cases h
  | cons first rest =>
      simp only [splitClass] at h
      split at h
      case isFalse => cases h
      case isTrue hmem =>
        cases h
        exists first, rest.takeWhile (fun c => c ≠ ']')
        refine ⟨?_, rfl, ?_⟩
        · have hparts := List.takeWhile_append_dropWhile
            (p := fun c => decide (c ≠ ']')) (l := rest)
          cases hdrop : rest.dropWhile (fun c => decide (c ≠ ']')) with
          | nil =>
              rw [List.dropWhile_eq_nil_iff] at hdrop
              have hall := hdrop ']' hmem
              simp at hall
          | cons d after =>
              have hd : d = ']' := by
                have hhead := List.head?_dropWhile_not
                  (fun c => decide (c ≠ ']')) rest
                rw [hdrop] at hhead
                simpa using hhead
              subst d
              rw [hdrop] at hparts
              rw [List.tail_cons, hparts]
        · intro hmem
          have hne := List.mem_takeWhile_imp hmem
          simp at hne

theorem splitClass_none {text : List Char} (h : splitClass text = none) :
    text = [] ∨ exists first rest, text = first :: rest ∧ ']' ∉ rest := by
  cases text with
  | nil => exact .inl rfl
  | cons first rest =>
      simp only [splitClass] at h
      split at h
      case isTrue => cases h
      case isFalse hmem => exact .inr ⟨first, rest, rfl, hmem⟩

/-- The state in which the first member of a class is compiled. -/
def memberState (negated : Bool) : CompileState :=
  if negated then .classNegate else .classStart

/-- The mode in which PCRE reads the first member. -/
def memberMode (negated : Bool) : Mode :=
  if negated then .first true else .opening

/-- An exclamation mark or a caret at the beginning of a class are written as a
caret. -/
theorem compileFrom_classStart (rest : List Char) :
    compileFrom .classStart rest =
      (if (negation rest).1 then ['^'] else []) ++
        compileFrom (memberState (negation rest).1) (negation rest).2 := by
  unfold negation
  split
  · rfl
  · rfl
  · rfl

/-- A class which is not negated begins with neither. -/
theorem negation_false {rest : List Char} (h : (negation rest).1 = false)
    {first : Char} {ms : List Char} (htext : (negation rest).2 = first :: ms) :
    first ≠ '!' ∧ first ≠ '^' := by
  have hrest : (negation rest).2 = rest := by
    revert h
    unfold negation
    split
    · intro h
      cases h
    · intro h
      cases h
    · intro _
      rfl
  rw [hrest] at htext
  constructor
  · intro hf
    rw [htext, hf] at h
    cases h
  · intro hf
    rw [htext, hf] at h
    cases h

/-- The first member of a class and the state in which it is compiled. -/
theorem compileFrom_memberState {rest : List Char} {first : Char}
    {ms : List Char} (htext : (negation rest).2 = first :: ms) :
    compileFrom (memberState (negation rest).1) (negation rest).2 =
      escapeMember first ++ compileFrom .inClass ms := by
  rw [htext]
  apply compileFrom_first
  cases hneg : (negation rest).1 with
  | true => exact .inl rfl
  | false => exact .inr ⟨rfl, negation_false hneg htext⟩

theorem parseFrom_classStart (rest : List Char) :
    parseFrom .opening (compileFrom .classStart rest) =
      parseFrom (memberMode (negation rest).1)
        (compileFrom (memberState (negation rest).1) (negation rest).2) := by
  rw [compileFrom_classStart]
  cases (negation rest).1 with
  | true =>
      have hcaret (text : List Char) :
          readChar .opening '^' text = .ok (none, .first true) := by
        simp [readChar]
      exact parseFrom_silent (hcaret _)
  | false => rfl

theorem readsMember_first {rest : List Char} {first : Char} {ms : List Char}
    (htext : (negation rest).2 = first :: ms) :
    ReadsMember (memberMode (negation rest).1) first
      (.start (negation rest).1) := by
  cases hneg : (negation rest).1 with
  | true => exact .first true first
  | false => exact .opening first (negation_false hneg htext).2

/-- Reading a class up to the end of its members. -/
theorem parseFrom_class {rest : List Char} {first : Char} {ms tail : List Char}
    (hstart : (negation rest).2 = first :: (ms ++ tail)) (hms : ']' ∉ ms) :
    parseFrom .opening (compileFrom .classStart rest) =
      ((OpenClass.start (negation rest).1).addAll (first :: ms)).bind
        fun cls => parseFrom (.inside cls) (compileFrom .inClass tail) := by
  rw [parseFrom_classStart, compileFrom_memberState hstart,
    compileFrom_inClass_append ms tail hms,
    parseFrom_escapeMember (readsMember_first hstart), OpenClass.addAll]
  cases OpenClass.add first (OpenClass.start (negation rest).1) with
  | error e => rfl
  | ok cls => exact parseFrom_escapeMembers ms _ cls

/-- A class which is not closed runs into the end of the pattern. -/
theorem parseFrom_unclosed {mode : Mode} {cls : OpenClass}
    (hmode : ReadsMember mode '$' cls) :
    exists e, parseFrom mode ['$'] = .error e := by
  have hread := parseFrom_escapeMember hmode []
  have hdollar : escapeMember '$' ++ [] = ['$'] := rfl
  rw [hdollar] at hread
  cases hadd : cls.add '$' with
  | error e =>
      exists e
      rw [hread, hadd]
      rfl
  | ok cls' =>
      exists .missingBracket
      rw [hread, hadd]
      rfl

theorem parseFrom_class_unclosed {rest : List Char}
    (h : splitClass (negation rest).2 = none) :
    exists e, parseFrom .opening (compileFrom .classStart rest) = .error e := by
  rcases splitClass_none h with hnil | ⟨first, ms, htext, hms⟩
  · rw [parseFrom_classStart, hnil]
    cases (negation rest).1 with
    | true => exact parseFrom_unclosed (.first true '$')
    | false => exact parseFrom_unclosed (.opening '$' (by decide))
  · have hstart : (negation rest).2 = first :: (ms ++ []) := by
      rw [List.append_nil]
      exact htext
    rw [parseFrom_class hstart hms]
    cases (OpenClass.start (negation rest).1).addAll (first :: ms) with
    | error e => exact ⟨e, rfl⟩
    | ok cls => exact parseFrom_unclosed (.inside cls '$')

theorem parseFrom_class_closed {rest members after : List Char}
    (h : splitClass (negation rest).2 = some (members, after)) :
    parseFrom .opening (compileFrom .classStart rest) =
      ((OpenClass.start (negation rest).1).addAll members).bind fun cls =>
        (parseFrom (.outside true) (compileFrom .wildcard after)).map
          fun tokens => cls.close :: tokens := by
  rcases splitClass_some h with ⟨first, ms, htext, hmembers, hms⟩
  subst members
  rw [parseFrom_class htext hms, compileFrom_inClass_close]
  cases (OpenClass.start (negation rest).1).addAll (first :: ms) with
  | error e => rfl
  | ok cls =>
      have hclose (text : List Char) :
          readChar (.inside cls) ']' text =
            .ok (some cls.close, .outside true) := by
        simp [readChar]
      exact parseFrom_token (hclose _)

/-- PCRE takes the class for the name of a POSIX class. -/
theorem posixSyntax_class {rest members after : List Char}
    (h : splitClass (negation rest).2 = some (members, after)) :
    posixSyntax (compileFrom .classStart rest) = true <->
      (negation rest).1 = false ∧ PosixLike members := by
  rcases splitClass_some h with ⟨first, ms, htext, hmembers, hms⟩
  subst members
  rw [compileFrom_classStart, compileFrom_memberState htext]
  cases hneg : (negation rest).1 with
  | true => simp [posixSyntax, isPosixDelimiter]
  | false =>
      rw [compileFrom_inClass_append ms _ hms, compileFrom_inClass_close]
      by_cases hfirst : isPosixDelimiter first = true
      · have hplain : escapeMember first = [first] := by
          have hspecial : ¬ (first = ']' ∨ first = '\\' ∨ first = '[') := by
            rintro (hf | hf | hf) <;> subst hf <;> cases hfirst
          simp [escapeMember, hspecial]
        have hname := posixName_members hfirst ms (compileFrom .wildcard after)
          hms
        have hlike : PosixLike (first :: ms) <->
            ms.getLast? = some first ∧ ¬ ['[', first] <:+: ms := by
          constructor
          · rintro ⟨delimiter, name, heq, _, hlast, hpair⟩
            cases heq
            exact ⟨hlast, hpair⟩
          · rintro ⟨hlast, hpair⟩
            exact ⟨first, ms, rfl, hfirst, hlast, hpair⟩
        rw [hlike, ← hname, hplain]
        simp [posixSyntax, hfirst]
      · have hlike : ¬ PosixLike (first :: ms) := by
          rintro ⟨delimiter, name, heq, hdelimiter, _⟩
          cases heq
          exact hfirst hdelimiter
        have hhead : posixSyntax (escapeMember first ++
            (escapeMembers ms ++ ']' :: compileFrom .wildcard after)) =
              false := by
          unfold escapeMember
          split
          · rfl
          · simp [posixSyntax, hfirst]
        simp [hhead, hlike]

/-! ## Whole patterns -/

/-- What a character outside of a class stands for, and whether PCRE would let
a star follow it. -/
def plainTokens (c : Char) : List Token × Bool :=
  if c = '*' then ([.any, .star], false)
  else if c = '?' then ([.any], true)
  else ([.literal c], true)

theorem tokens_plain {c : Char} {rest : List Char}
    (hclass : ¬ (c = '[' ∧ ']' ∈ rest)) :
    tokens (c :: rest) = (plainTokens c).1 ++ tokens rest := by
  rw [tokens, if_neg hclass, plainTokens]
  split_ifs <;> rfl

/-- Outside of a class every character is written so that it is read back. -/
theorem parseFrom_plain {c : Char} {rest : List Char}
    (hclass : ¬ (c = '[' ∧ ']' ∈ rest)) (repeatable : Bool) :
    parseFrom (.outside repeatable) (compileFrom .wildcard (c :: rest)) =
      (parseFrom (.outside (plainTokens c).2) (compileFrom .wildcard rest)).map
        fun tail => (plainTokens c).1 ++ tail := by
  by_cases hstar : c = '*'
  · subst c
    have htext : compileFrom .wildcard ('*' :: rest) =
        '.' :: '*' :: compileFrom .wildcard rest := by
      simp [compileFrom, compileChar]
    have hplain : plainTokens '*' = ([.any, .star], false) := rfl
    rw [htext, parseFrom_dot, parseFrom_star, hplain]
    cases parseFrom (.outside false) (compileFrom .wildcard rest) <;> rfl
  · by_cases hany : c = '?'
    · subst c
      have htext : compileFrom .wildcard ('?' :: rest) =
          '.' :: compileFrom .wildcard rest := by
        simp [compileFrom, compileChar]
      rw [htext, parseFrom_dot]
      rfl
    · have hplain : plainTokens c = ([.literal c], true) := by
        simp [plainTokens, hstar, hany]
      by_cases hspecial : c = '[' ∨ c ∈ metacharacters
      · have hletter : c.isAlphanum = false := by
          revert c
          simp only [metacharacters, List.mem_cons, List.not_mem_nil, or_false]
          rintro c _ _ _ _ (h | h | h | h | h | h | h | h | h | h) <;>
            subst h <;> decide
        have htext : compileFrom .wildcard (c :: rest) =
            '\\' :: c :: compileFrom .wildcard rest := by
          rcases hspecial with hopen | hmeta
          · subst c
            have hmem : ']' ∉ rest := fun h => hclass ⟨rfl, h⟩
            simp [compileFrom, compileChar, hmem]
          · have hopen : c ≠ '[' := by
              rintro rfl
              exact absurd hmeta (by decide)
            simp [compileFrom, compileChar, hstar, hany, hopen, hmeta]
        rw [htext, parseFrom_escaped hletter, hplain]
        rfl
      · have hopen : c ≠ '[' := fun h => hspecial (.inl h)
        have hmeta : c ∉ metacharacters := fun h => hspecial (.inr h)
        have htext : compileFrom .wildcard (c :: rest) =
            c :: compileFrom .wildcard rest := by
          simp [compileFrom, compileChar, hstar, hany, hopen, hmeta]
        have hread (text : List Char) : readChar (.outside repeatable) c text =
            .ok (some (.literal c), .outside true) := by
          simp only [metacharacters, List.mem_cons, List.not_mem_nil, or_false,
            not_or] at hmeta
          simp [readChar, hstar, hany, hopen, hmeta]
        rw [htext, parseFrom_token (hread _), hplain]
        rfl

theorem compileFrom_open {rest : List Char} (h : ']' ∈ rest) :
    compileFrom .wildcard ('[' :: rest) =
      '[' :: compileFrom .classStart rest := by
  simp [compileFrom, compileChar, h]

/-- A bracket which opens a class, in front of what is no POSIX class. -/
theorem parseFrom_open {text : List Char} (h : posixSyntax text = false)
    (repeatable : Bool) :
    parseFrom (.outside repeatable) ('[' :: text) = parseFrom .opening text := by
  have hopen : readChar (.outside repeatable) '[' text =
      .ok (none, .opening) := by
    simp [readChar, h]
  exact parseFrom_silent hopen

theorem parseFrom_open_error {text : List Char}
    (h : posixSyntax text = true ∨ exists e, parseFrom .opening text = .error e)
    (repeatable : Bool) :
    exists e, parseFrom (.outside repeatable) ('[' :: text) = .error e := by
  cases hposix : posixSyntax text with
  | true =>
      exists .posixOutsideClass
      have hopen : readChar (.outside repeatable) '[' text =
          .error .posixOutsideClass := by
        simp [readChar, hposix]
      exact parseFrom_error hopen
  | false =>
      rw [parseFrom_open hposix]
      rcases h with h | h
      · rw [hposix] at h
        cases h
      · exact h

/-- The compiled pattern is read as what the glob pattern stands for. -/
theorem parse_compileFrom {pattern : List Char} (hsound : ClassesSound pattern) :
    forall repeatable,
      parseFrom (.outside repeatable) (compileFrom .wildcard pattern) =
        .ok (tokens pattern) := by
  induction pattern using ClassesSound.induct with
  | case1 =>
      intro repeatable
      rw [tokens]
      rfl
  | case2 c rest hclass hnone =>
      rw [ClassesSound, if_pos hclass, hnone] at hsound
      cases hsound
  | case3 c rest hclass members after hsome ih =>
      intro repeatable
      rw [ClassesSound, if_pos hclass, hsome] at hsound
      rcases hsound with ⟨hordered, hlike, hafter⟩
      have hposix : posixSyntax (compileFrom .classStart rest) = false := by
        rw [← Bool.not_eq_true, posixSyntax_class hsome]
        rintro ⟨hneg, hposix⟩
        exact hlike hneg hposix
      rcases OpenClass.addAll_ok members (OpenClass.start (negation rest).1)
        hordered with ⟨cls, hadd, hclose⟩
      rw [tokens, if_pos hclass, hsome, hclass.1, compileFrom_open hclass.2,
        parseFrom_open hposix, parseFrom_class_closed hsome, hadd]
      simp only [Except.bind, ih hafter true, Except.map, hclose]
      rfl
  | case4 c rest hclass ih =>
      intro repeatable
      rw [ClassesSound, if_neg hclass] at hsound
      rw [parseFrom_plain hclass, ih hsound, tokens_plain hclass]
      rfl

theorem parse_compileFrom_error {pattern : List Char}
    (hsound : ¬ ClassesSound pattern) :
    forall repeatable, exists e,
      parseFrom (.outside repeatable) (compileFrom .wildcard pattern) =
        .error e := by
  induction pattern using ClassesSound.induct with
  | case1 => exact absurd (by rw [ClassesSound]; trivial) hsound
  | case2 c rest hclass hnone =>
      intro repeatable
      rw [hclass.1, compileFrom_open hclass.2]
      exact parseFrom_open_error (.inr (parseFrom_class_unclosed hnone)) _
  | case3 c rest hclass members after hsome ih =>
      intro repeatable
      rw [ClassesSound, if_pos hclass, hsome] at hsound
      rw [hclass.1, compileFrom_open hclass.2]
      apply parseFrom_open_error
      by_cases hlike : (negation rest).1 = false ∧ PosixLike members
      · exact .inl ((posixSyntax_class hsome).mpr hlike)
      · right
        rw [parseFrom_class_closed hsome]
        by_cases hordered : RangesOrdered members
        · have hafter : ¬ ClassesSound after := by
            intro hafter
            exact hsound ⟨hordered, fun hneg h => hlike ⟨hneg, h⟩, hafter⟩
          rcases ih hafter true with ⟨e, he⟩
          exists e
          rcases OpenClass.addAll_ok members
            (OpenClass.start (negation rest).1) hordered with ⟨cls, hadd, _⟩
          rw [hadd]
          simp only [Except.bind, he, Except.map]
        · rcases OpenClass.addAll_error members
            (OpenClass.start (negation rest).1) hordered with ⟨e, he⟩
          exists e
          rw [he]
          rfl
  | case4 c rest hclass ih =>
      intro repeatable
      rw [ClassesSound, if_neg hclass] at hsound
      rcases ih hsound (plainTokens c).2 with ⟨e, he⟩
      exists e
      rw [parseFrom_plain hclass, he]
      rfl

theorem parse_compilePattern {pattern : List Char}
    (hsound : ClassesSound pattern) :
    parse (compilePattern pattern) = .ok (tokens pattern) :=
  parse_compileFrom hsound false

/-- The compiled pattern is valid if and only if every class is sound. -/
theorem compilePattern_valid (pattern : List Char) :
    Valid (compilePattern pattern) <-> ClassesSound pattern := by
  constructor
  · rintro ⟨read, hread⟩
    by_contra hsound
    rcases parse_compileFrom_error hsound false with ⟨e, he⟩
    rw [parse, compilePattern, he] at hread
    cases hread
  · intro hsound
    exact ⟨tokens pattern, parse_compilePattern hsound⟩

/-- A range in reverse order is passed on to PCRE. -/
theorem compilePattern_reversed :
    ¬ (forall pattern : List Char, '\x00' ∉ pattern ->
      Valid (compilePattern pattern)) := by
  intro h
  have hvalid := h ['[', 'z', '-', 'a', ']'] (by decide)
  exact absurd hvalid (by decide)

end Glob
end SciTECO
