import Mathlib.Logic.Relation
import SciTECO.Pattern.Literal

/-!
# Patterns character by character

`teco_pattern2regexp()` and `teco_class2regexp()` share a cursor, and the
character behind a caret is changed in memory.  A run of the translation is
followed from one pass of its loop to the next, through the recursive calls.
-/

namespace SciTECO
namespace Pattern

open Encodings

/-! ## Positions of the cursor -/

/-- The string in memory is UTF-8 and the cursor does not stand within a
character. -/
structure Scanner.OnBoundary {S : Type} (s : Scanner S) : Prop where
  front : Valid .utf8 s.passed
  rest : Valid .utf8 s.pattern

section Translation

variable {S : Type} (regexEscapeString : Bytes -> Bytes)
  (qregMachine : SpecMachine S)

/-- Where the cursor comes to stand in a call of `teco_class2regexp()`, at the
condition of its loop. -/
inductive ClassVisits : Scanner S -> Scanner S -> Prop where
  | here (s : Scanner S) : ClassVisits s s
  | ctlE {s u : Scanner S} {rest : Bytes} :
      s.state = .start -> s.pattern = ctl 'E' :: rest ->
      ClassVisits { s.advance 1 with state := .ctlE } u -> ClassVisits s u
  | anyQ {s u : Scanner S} {b : UInt8} {rest : Bytes} :
      s.state = .ctlE -> s.pattern = b :: rest -> upperKey b = some 'G' ->
      ClassVisits { s.advance 1 with state := .anyQ } u -> ClassVisits s u
  | more {s u : Scanner S} {machine : S} :
      s.state = .anyQ -> s.pattern ≠ [] ->
      qregMachine.input s.machine (charCode .utf8 s.pattern) = .more machine ->
      ClassVisits { s.advanceChar .utf8 with machine := machine } u ->
      ClassVisits s u

/-- A call of `teco_class2regexp()` gets the string of a register. -/
def ClassReads (s : Scanner S) (string : Bytes) : Prop :=
  exists u, ClassVisits qregMachine s u ∧ u.state = .anyQ ∧ u.pattern ≠ [] ∧
    qregMachine.input u.machine (charCode .utf8 u.pattern) = .done string

/-- Where the class in a pass begins. -/
def Scanner.beforeClass (s : Scanner S) : Scanner S :=
  if s.state = .not then { s with state := .start } else resolveCaret s

/-- A pass gets the string of a register for a class. -/
def PassReads (s : Scanner S) (string : Bytes) : Prop :=
  ClassReads qregMachine s.beforeClass string

/-- The passes of the loop in `teco_pattern2regexp()`: the arguments of
`pattern2RegexpFrom`. -/
structure Head (S : Type) where
  fuel : Nat
  singleExpr : Bool
  scanner : Scanner S
  re : Bytes

/-- The recursive call in a pass. -/
def nestedCall (fuel : Nat) (s : Scanner S) :
    Except Failure (Bytes × Scanner S) :=
  pattern2RegexpFrom regexEscapeString qregMachine .utf8 fuel true
    { s with state := .start } []

/-- A pass consists of a recursive call. -/
def Scanner.Calls (s : Scanner S) : Prop :=
  exists b rest, s.pattern = b :: rest ∧
    (s.state = .many ∨
      s.state = .alt ∧ b ≠ ','.toUInt8 ∧ b ≠ ']'.toUInt8)

/-- From a pass to the first one in its recursive call, or to the next one in
the same call. -/
inductive Follows : Head S -> Head S -> Prop where
  | nested {fuel : Nat} {singleExpr : Bool} {s : Scanner S} {re : Bytes} :
      s.Calls ->
      Follows ⟨fuel + 1, singleExpr, s, re⟩
        ⟨fuel, true, { s with state := .start }, []⟩
  | next {fuel : Nat} {singleExpr : Bool} {s t : Scanner S} {re re' : Bytes} :
      pass regexEscapeString qregMachine .utf8
        (nestedCall regexEscapeString qregMachine fuel) s re =
          .ok (.condition t re') ->
      ¬ (singleExpr ∧ t.state = .start) ->
      Follows ⟨fuel + 1, singleExpr, s, re⟩ ⟨fuel, singleExpr, t, re'⟩

/-- A run gets to a pass. -/
def Passes (h h' : Head S) : Prop :=
  Relation.ReflTransGen (Follows regexEscapeString qregMachine) h h'

/-- A call of `teco_pattern2regexp()` gets behind its loop: it meets neither an
error nor an incomplete element. -/
inductive LeavesLoop : Head S -> Prop where
  | atEnd {fuel : Nat} {singleExpr : Bool} {s t : Scanner S} {re re' : Bytes} :
      pass regexEscapeString qregMachine .utf8
        (nestedCall regexEscapeString qregMachine fuel) s re =
          .ok (.endOfPattern t re') ->
      LeavesLoop ⟨fuel + 1, singleExpr, s, re⟩
  | single {fuel : Nat} {singleExpr : Bool} {s t : Scanner S} {re re' : Bytes} :
      pass regexEscapeString qregMachine .utf8
        (nestedCall regexEscapeString qregMachine fuel) s re =
          .ok (.condition t re') ->
      (singleExpr ∧ t.state = .start) ->
      LeavesLoop ⟨fuel + 1, singleExpr, s, re⟩
  | next {fuel : Nat} {singleExpr : Bool} {s t : Scanner S} {re re' : Bytes} :
      pass regexEscapeString qregMachine .utf8
        (nestedCall regexEscapeString qregMachine fuel) s re =
          .ok (.condition t re') ->
      ¬ (singleExpr ∧ t.state = .start) ->
      LeavesLoop ⟨fuel, singleExpr, t, re'⟩ ->
      LeavesLoop ⟨fuel + 1, singleExpr, s, re⟩

/-- Where the scanner is when a pass ends. -/
def Pass.scanner : Pass S -> Scanner S
  | .condition s _ => s
  | .endOfPattern s _ => s
  | .incomplete s => s

/-- Where the cursor stands in a pass. -/
inductive Stands (h : Head S) : Scanner S -> Prop where
  | head : Stands h h.scanner
  | caret : Stands h (resolveCaret h.scanner)
  | inClass {u : Scanner S} :
      ClassVisits qregMachine h.scanner.beforeClass u -> Stands h u
  | behindClass {cls : Bytes} {u : Scanner S} :
      classAt regexEscapeString qregMachine .utf8 (h.scanner.state = .not)
        h.scanner.beforeClass = .ok (cls, u) ->
      Stands h u
  | behind {fuel : Nat} {end' : Pass S} :
      pass regexEscapeString qregMachine .utf8
        (nestedCall regexEscapeString qregMachine fuel) h.scanner h.re =
          .ok end' ->
      h.fuel = fuel + 1 -> Stands h end'.scanner

/-- The first pass for a pattern. -/
def firstHead (pattern : Bytes) : Head S where
  fuel := 2 * pattern.length + 2
  singleExpr := false
  scanner := ⟨.start, [], pattern, qregMachine.reset⟩
  re := []

/-- The translation treats the pattern as characters. -/
structure CharacterSafe (pattern : Bytes) : Prop where
  /-- The translation terminates, and no assertion fails. -/
  returns : forall fault,
    pattern2Regexp regexEscapeString qregMachine .utf8 pattern ≠
      .error (.fault fault)
  /-- The cursor always stands between characters of a UTF-8 string. -/
  boundaries : forall h u,
    Passes regexEscapeString qregMachine (firstHead qregMachine pattern) h ->
      Stands regexEscapeString qregMachine h u -> u.OnBoundary
  regex : forall re,
    pattern2Regexp regexEscapeString qregMachine .utf8 pattern = .ok re ->
      Valid .utf8 re

/-- A pass begins with a caret that was read and a character outside of ASCII
behind it. -/
def Scanner.BadCaret (s : Scanner S) : Prop :=
  s.state = .ctl ∧ exists b rest, s.pattern = b :: rest ∧ ¬ b < 0x80

end Translation

/-! ## Moving the cursor -/

theorem upperKey_ascii {b : UInt8} {c : Char} (h : upperKey b = some c) :
    b < 0x80 := by
  have hupper : forall n : Nat, asciiToUpper n < 128 -> n < 128 := by
    intro n
    unfold asciiToUpper
    split
    · next hlower => exact fun _ => Nat.lt_of_le_of_lt hlower.2 (by decide)
    · exact id
  unfold upperKey ascii at h
  split at h
  · next hlt => exact UInt8.lt_iff_toNat_lt.mpr (hupper _ hlt)
  · cases h

theorem ctlEClass_ascii {b : UInt8} {cls : Bytes} (h : ctlEClass b = some cls) :
    b < 0x80 := by
  cases hkey : upperKey b with
  | some c => exact upperKey_ascii hkey
  | none =>
      unfold ctlEClass at h
      rw [hkey] at h
      cases h

section Cursor

variable {S : Type} {s : Scanner S}

/-- The cursor passes a byte of ASCII. -/
theorem Scanner.OnBoundary.advance (h : s.OnBoundary) {b : UInt8} {rest : Bytes}
    (hpattern : s.pattern = b :: rest) (hb : b < 0x80) :
    (s.advance 1).OnBoundary := by
  have hrest := h.rest
  rw [hpattern] at hrest
  constructor
  · refine h.front.append ?_
    rw [hpattern]
    exact (valid_ascii_cons hb []).mpr (valid_nil _)
  · change Valid .utf8 (s.pattern.drop 1)
    rw [hpattern]
    exact (valid_ascii_cons hb rest).mp hrest

theorem Scanner.OnBoundary.advanceChar (h : s.OnBoundary)
    (hpattern : s.pattern ≠ []) : (s.advanceChar .utf8).OnBoundary := by
  have hrest := h.rest
  cases hbytes : s.pattern with
  | nil => exact absurd hbytes hpattern
  | cons b rest =>
      rw [hbytes] at hrest
      rcases valid_split hrest with ⟨hlead, hchar, hbehind⟩
      have hlength : charLength .utf8 s.pattern = sequenceLength b := by
        rw [hbytes]
        change utf8Skip b = sequenceLength b
        unfold utf8Skip sequenceLength
        rw [if_pos hlead]
      constructor
      · refine h.front.append ?_
        rw [hlength, hbytes]
        exact hchar
      · change Valid .utf8 (s.pattern.drop (charLength .utf8 s.pattern))
        rw [hlength, hbytes]
        exact hbehind

theorem firstChar_valid (h : s.OnBoundary) (hpattern : s.pattern ≠ []) :
    Valid .utf8 (firstChar .utf8 s.pattern) := by
  have hsplit : Valid .utf8
      (firstChar .utf8 s.pattern ++ behindChar .utf8 s.pattern) := by
    rw [firstChar, behindChar, List.take_append_drop]
    exact h.rest
  exact valid_front hsplit (h.advanceChar hpattern).rest

theorem advance_length {b : UInt8} {rest : Bytes}
    (hpattern : s.pattern = b :: rest) :
    (s.advance 1).pattern.length < s.pattern.length := by
  change (s.pattern.drop 1).length < _
  rw [hpattern]
  exact Nat.lt_succ_self _

theorem advanceChar_length (hpattern : s.pattern ≠ []) :
    (s.advanceChar .utf8).pattern.length < s.pattern.length :=
  behindChar_length hpattern

end Cursor

/-! ## Classes -/

section Classes

variable {S : Type} {regexEscapeString : Bytes -> Bytes}
  {qregMachine : SpecMachine S} {s : Scanner S}

theorem classReads_ctlE {rest string : Bytes} (hstate : s.state = .start)
    (hpattern : s.pattern = ctl 'E' :: rest) :
    ClassReads qregMachine s string <->
      ClassReads qregMachine { s.advance 1 with state := .ctlE } string := by
  constructor
  · rintro ⟨u, hvisits, hu⟩
    cases hvisits with
    | here =>
        rw [hstate] at hu
        cases hu.1
    | ctlE _ _ hvisits => exact ⟨u, hvisits, hu⟩
    | anyQ hstate' => cases hstate.symm.trans hstate'
    | more hstate' => cases hstate.symm.trans hstate'
  · rintro ⟨u, hvisits, hu⟩
    exact ⟨u, .ctlE hstate hpattern hvisits, hu⟩

theorem classReads_anyQ {b : UInt8} {rest string : Bytes}
    (hstate : s.state = .ctlE) (hpattern : s.pattern = b :: rest)
    (hb : upperKey b = some 'G') :
    ClassReads qregMachine s string <->
      ClassReads qregMachine { s.advance 1 with state := .anyQ } string := by
  constructor
  · rintro ⟨u, hvisits, hu⟩
    cases hvisits with
    | here =>
        rw [hstate] at hu
        cases hu.1
    | ctlE hstate' => cases hstate.symm.trans hstate'
    | anyQ _ _ _ hvisits => exact ⟨u, hvisits, hu⟩
    | more hstate' => cases hstate.symm.trans hstate'
  · rintro ⟨u, hvisits, hu⟩
    exact ⟨u, .anyQ hstate hpattern hb hvisits, hu⟩

theorem classReads_more {machine : S} {string : Bytes}
    (hstate : s.state = .anyQ) (hpattern : s.pattern ≠ [])
    (hinput : qregMachine.input s.machine (charCode .utf8 s.pattern) =
      .more machine) :
    ClassReads qregMachine s string <->
      ClassReads qregMachine { s.advanceChar .utf8 with machine := machine }
        string := by
  constructor
  · rintro ⟨u, hvisits, hu⟩
    cases hvisits with
    | here => cases hinput.symm.trans hu.2.2
    | ctlE hstate' => cases hstate.symm.trans hstate'
    | anyQ hstate' => cases hstate.symm.trans hstate'
    | more _ _ hinput' hvisits =>
        cases hinput.symm.trans hinput'
        exact ⟨u, hvisits, hu⟩
  · rintro ⟨u, hvisits, hu⟩
    exact ⟨u, .more hstate hpattern hinput hvisits, hu⟩

theorem classReads_done {string string' : Bytes} (hstate : s.state = .anyQ)
    (hpattern : s.pattern ≠ [])
    (hinput : qregMachine.input s.machine (charCode .utf8 s.pattern) =
      .done string) :
    ClassReads qregMachine s string' <-> string' = string := by
  constructor
  · rintro ⟨u, hvisits, hu⟩
    cases hvisits with
    | here =>
        cases hinput.symm.trans hu.2.2
        rfl
    | ctlE hstate' => cases hstate.symm.trans hstate'
    | anyQ hstate' => cases hstate.symm.trans hstate'
    | more _ _ hinput' => cases hinput.symm.trans hinput'
  · rintro rfl
    exact ⟨s, .here s, hstate, hpattern, hinput⟩

/-- Only ^EG reads a register. -/
theorem classReads_none {string : Bytes} (hany : s.state ≠ .anyQ)
    (hstart : s.state = .start -> forall rest, s.pattern ≠ ctl 'E' :: rest)
    (hctlE : s.state = .ctlE -> forall b rest, s.pattern = b :: rest ->
      upperKey b ≠ some 'G') :
    ¬ ClassReads qregMachine s string := by
  rintro ⟨u, hvisits, hu⟩
  cases hvisits with
  | here => exact hany hu.1
  | ctlE hstate hpattern => exact hstart hstate _ hpattern
  | anyQ hstate hpattern hb => exact hctlE hstate _ _ hpattern hb
  | more hstate => exact hany hstate

theorem classReads_end {string : Bytes} (hpattern : s.pattern = []) :
    ¬ ClassReads qregMachine s string := by
  rintro ⟨u, hvisits, hu⟩
  cases hvisits with
  | here => exact hu.2.1 hpattern
  | ctlE _ hpattern' => cases hpattern.symm.trans hpattern'
  | anyQ _ hpattern' => cases hpattern.symm.trans hpattern'
  | more _ hpattern' => exact absurd hpattern hpattern'

/-- How a call of `teco_class2regexp()` ends. -/
structure ClassEnd (qregMachine : SpecMachine S) (s : Scanner S) (cls : Bytes)
    (t : Scanner S) : Prop where
  boundary : t.OnBoundary
  noNul : 0 ∉ cls
  found : cls ≠ [] -> t.state = .start ∧ t.pattern.length < s.pattern.length
  notFound : cls = [] ->
    (t = s ∧ (s.pattern ≠ [] -> s.state ≠ .anyQ)) ∨
      (t.pattern.length < s.pattern.length ∧
        (t.state = .start ∨ t.state = .ctlE ∨
          t.state = .anyQ ∧ t.pattern = []))
  valid : Valid .utf8 cls <->
    forall string, ClassReads qregMachine s string -> Valid .utf8 string

/-- A class without a register. -/
theorem ClassEnd.simple {cls : Bytes} {t : Scanner S} (hboundary : t.OnBoundary)
    (hcls : cls ≠ []) (hascii : cls.all (fun b => 0 < b ∧ b < 0x80) = true)
    (hstate : t.state = .start)
    (hlength : t.pattern.length < s.pattern.length)
    (hreads : forall string, ¬ ClassReads qregMachine s string) :
    ClassEnd qregMachine s cls t where
  boundary := hboundary
  noNul := by
    intro hmem
    have hzero := of_decide_eq_true (List.all_eq_true.mp hascii 0 hmem)
    exact absurd hzero.1 (by decide)
  found := fun _ => ⟨hstate, hlength⟩
  notFound := fun h => absurd h hcls
  valid := by
    constructor
    · intro _ string hread
      exact absurd hread (hreads string)
    · intro _
      apply valid_ascii
      intro b hb
      exact (of_decide_eq_true (List.all_eq_true.mp hascii b hb)).2

/-- What is no class is left where it is. -/
theorem ClassEnd.noClass (h : s.OnBoundary)
    (hany : s.pattern ≠ [] -> s.state ≠ .anyQ)
    (hreads : forall string, ¬ ClassReads qregMachine s string) :
    ClassEnd qregMachine s [] s where
  boundary := h
  noNul := List.not_mem_nil
  found := fun h => absurd rfl h
  notFound := fun _ => .inl ⟨rfl, hany⟩
  valid := by
    constructor
    · intro _ string hread
      exact absurd hread (hreads string)
    · exact fun _ => valid_nil _

/-- A pass of the loop in `teco_class2regexp()`. -/
theorem ClassEnd.step {cls : Bytes} {s' t : Scanner S}
    (h : ClassEnd qregMachine s' cls t)
    (hlength : s'.pattern.length < s.pattern.length)
    (hstate : s'.state = .ctlE ∨ s'.state = .anyQ)
    (hreads : forall string,
      ClassReads qregMachine s string <-> ClassReads qregMachine s' string) :
    ClassEnd qregMachine s cls t where
  boundary := h.boundary
  noNul := h.noNul
  found := by
    intro hcls
    rcases h.found hcls with ⟨hstart, hshorter⟩
    exact ⟨hstart, Nat.lt_trans hshorter hlength⟩
  notFound := by
    intro hcls
    rcases h.notFound hcls with ⟨rfl, hany⟩ | ⟨hshorter, hend⟩
    · refine .inr ⟨hlength, ?_⟩
      rcases hstate with hstate | hstate
      · exact .inr (.inl hstate)
      · refine .inr (.inr ⟨hstate, ?_⟩)
        by_cases hpattern : t.pattern = []
        · exact hpattern
        · exact absurd hstate (hany hpattern)
    · exact .inr ⟨Nat.lt_trans hshorter hlength, hend⟩
  valid := by
    rw [h.valid]
    exact forall_congr' (fun string => by rw [hreads string])

/-- The string of a register. -/
theorem ClassEnd.register (hescape : EscapesMetacharacters regexEscapeString)
    {string : Bytes} {t : Scanner S} (hboundary : t.OnBoundary)
    (hstate : t.state = .start)
    (hlength : t.pattern.length < s.pattern.length)
    (hreads : forall string',
      ClassReads qregMachine s string' <-> string' = string) :
    ClassEnd qregMachine s (regexEscapeString string) t where
  boundary := hboundary
  noNul := by
    rw [hescape]
    exact escape_ne_zero string
  found := fun _ => ⟨hstate, hlength⟩
  notFound := fun _ => .inr ⟨hlength, .inl hstate⟩
  valid := by
    rw [hescape, valid_rewrite escapes_rewrite]
    constructor
    · intro hvalid string' hread
      rw [(hreads string').mp hread]
      exact hvalid
    · intro hall
      exact hall string ((hreads string).mpr rfl)

theorem ctlEClass_simple {b : UInt8} {cls : Bytes} (h : ctlEClass b = some cls) :
    cls ≠ [] ∧ cls.all (fun b => 0 < b ∧ b < 0x80) = true := by
  unfold ctlEClass at h
  split at h
  case h_9 => cases h
  all_goals
    cases h
    exact ⟨List.cons_ne_nil _ _, by decide⟩

/-- A character taken as a class. -/
theorem ClassEnd.literal (hescape : EscapesMetacharacters regexEscapeString)
    (h : s.OnBoundary) (hpattern : s.pattern ≠ []) (hstate : s.state = .start)
    (hreads : forall string, ¬ ClassReads qregMachine s string) :
    ClassEnd qregMachine s (regexEscapeString (firstChar .utf8 s.pattern))
      (s.advanceChar .utf8) where
  boundary := h.advanceChar hpattern
  noNul := by
    rw [hescape]
    exact escape_ne_zero _
  found := fun _ => ⟨hstate, advanceChar_length hpattern⟩
  notFound := fun _ => .inr ⟨advanceChar_length hpattern, .inl hstate⟩
  valid := by
    rw [hescape, valid_rewrite escapes_rewrite]
    constructor
    · intro _ string hread
      exact absurd hread (hreads string)
    · exact fun _ => firstChar_valid h hpattern

/-- A call of `teco_class2regexp()` ends with an error or a result. -/
def ClassEnds (regexEscapeString : Bytes -> Bytes)
    (qregMachine : SpecMachine S) (escapeDefault : Bool) (fuel : Nat)
    (s : Scanner S) : Prop :=
  (exists err, class2Regexp regexEscapeString qregMachine .utf8 escapeDefault
    fuel s = .error (.error err)) ∨
  exists cls t, class2Regexp regexEscapeString qregMachine .utf8 escapeDefault
    fuel s = .ok (cls, t) ∧ ClassEnd qregMachine s cls t

theorem ClassEnds.step {escapeDefault : Bool} {fuel : Nat} {s' : Scanner S}
    (h : ClassEnds regexEscapeString qregMachine escapeDefault fuel s')
    (hpass : class2Regexp regexEscapeString qregMachine .utf8 escapeDefault
      (fuel + 1) s =
        class2Regexp regexEscapeString qregMachine .utf8 escapeDefault fuel s')
    (hlength : s'.pattern.length < s.pattern.length)
    (hstate : s'.state = .ctlE ∨ s'.state = .anyQ)
    (hreads : forall string,
      ClassReads qregMachine s string <-> ClassReads qregMachine s' string) :
    ClassEnds regexEscapeString qregMachine escapeDefault (fuel + 1) s := by
  unfold ClassEnds
  rw [hpass]
  rcases h with herr | ⟨cls, t, hok, hend⟩
  · exact .inl herr
  · exact .inr ⟨cls, t, hok, hend.step hlength hstate hreads⟩

section Step

variable (hescape : EscapesMetacharacters regexEscapeString)
  {escapeDefault : Bool} {fuel : Nat}
  (ih : forall s : Scanner S, s.OnBoundary -> s.pattern.length < fuel ->
    ClassEnds regexEscapeString qregMachine escapeDefault fuel s)
  {b : UInt8} {passed rest : Bytes} {machine : S}

include hescape ih

theorem classEnds_start (h : (⟨.start, passed, b :: rest, machine⟩ :
      Scanner S).OnBoundary) (hfuel : (b :: rest).length < fuel + 1) :
    ClassEnds regexEscapeString qregMachine escapeDefault (fuel + 1)
      ⟨.start, passed, b :: rest, machine⟩ := by
  have hnone (he : b ≠ ctl 'E') (string : Bytes) :
      ¬ ClassReads qregMachine
        (⟨.start, passed, b :: rest, machine⟩ : Scanner S) string := by
    refine classReads_none (fun hstate => by cases hstate) ?_
      (fun hstate => by cases hstate)
    intro _ rest' hpattern
    exact he (List.cons.inj hpattern).1
  by_cases hs : b = ctl 'S'
  · subst hs
    refine .inr ⟨_, _, by rw [class2Regexp]; exact if_pos rfl, ?_⟩
    exact .simple (h.advance rfl (by decide)) (List.cons_ne_nil _ _)
      (by decide) rfl (advance_length rfl) (hnone (by decide))
  by_cases he : b = ctl 'E'
  · subst he
    have hadvance := h.advance rfl (by decide)
    refine .step (ih { Scanner.advance _ 1 with state := .ctlE }
      ⟨hadvance.front, hadvance.rest⟩ (Nat.lt_of_succ_lt_succ hfuel)) ?_
      (advance_length rfl) (.inl rfl) (fun string => classReads_ctlE rfl rfl)
    rw [class2Regexp]
    dsimp only
    rw [if_neg hs, if_pos rfl]
  cases escapeDefault with
  | true =>
      refine .inr ⟨_, _, ?_, .literal hescape h (List.cons_ne_nil _ _) rfl
        (hnone he)⟩
      rw [class2Regexp]
      dsimp only
      rw [if_neg hs, if_neg he]
      rfl
  | false =>
      refine .inr ⟨_, _, ?_, .noClass h (fun _ hstate => by cases hstate)
        (hnone he)⟩
      rw [class2Regexp]
      dsimp only
      rw [if_neg hs, if_neg he]
      rfl

omit hescape in
theorem classEnds_ctlE (h : (⟨.ctlE, passed, b :: rest, machine⟩ :
      Scanner S).OnBoundary) (hfuel : (b :: rest).length < fuel + 1) :
    ClassEnds regexEscapeString qregMachine escapeDefault (fuel + 1)
      ⟨.ctlE, passed, b :: rest, machine⟩ := by
  have hnone (hg : upperKey b ≠ some 'G') (string : Bytes) :
      ¬ ClassReads qregMachine
        (⟨.ctlE, passed, b :: rest, machine⟩ : Scanner S) string := by
    refine classReads_none (fun hstate => by cases hstate)
      (fun hstate => by cases hstate) ?_
    intro _ b' rest' hpattern
    exact (List.cons.inj hpattern).1 ▸ hg
  by_cases hg : upperKey b = some 'G'
  · have hadvance := h.advance rfl (upperKey_ascii hg)
    refine .step (ih { Scanner.advance _ 1 with state := .anyQ }
      ⟨hadvance.front, hadvance.rest⟩ (Nat.lt_of_succ_lt_succ hfuel)) ?_
      (advance_length rfl) (.inr rfl)
      (fun string => classReads_anyQ rfl rfl hg)
    rw [class2Regexp]
    dsimp only
    rw [if_pos hg]
  cases hcls : ctlEClass b with
  | some cls =>
      have hadvance := h.advance rfl (ctlEClass_ascii hcls)
      rcases ctlEClass_simple hcls with ⟨hne, hascii⟩
      refine .inr ⟨cls, { Scanner.advance _ 1 with state := .start }, ?_,
        .simple ⟨hadvance.front, hadvance.rest⟩ hne hascii rfl
          (advance_length rfl) (hnone hg)⟩
      rw [class2Regexp]
      dsimp only
      rw [if_neg hg, hcls]
  | none =>
      refine .inr ⟨_, _, ?_, .noClass h (fun _ hstate => by cases hstate)
        (hnone hg)⟩
      rw [class2Regexp]
      dsimp only
      rw [if_neg hg, hcls]

theorem classEnds_anyQ (h : (⟨.anyQ, passed, b :: rest, machine⟩ :
      Scanner S).OnBoundary) (hfuel : (b :: rest).length < fuel + 1) :
    ClassEnds regexEscapeString qregMachine escapeDefault (fuel + 1)
      ⟨.anyQ, passed, b :: rest, machine⟩ := by
  have hadvance := h.advanceChar (List.cons_ne_nil b rest)
  have hlength := advanceChar_length
    (show (⟨.anyQ, passed, b :: rest, machine⟩ : Scanner S).pattern ≠ [] from
      List.cons_ne_nil b rest)
  cases hinput : qregMachine.input machine (charCode .utf8 (b :: rest)) with
  | error err =>
      refine .inl ⟨err, ?_⟩
      rw [class2Regexp]
      dsimp only
      rw [hinput]
  | more machine' =>
      refine .step (ih { Scanner.advanceChar .utf8 _ with machine := machine' }
        ⟨hadvance.front, hadvance.rest⟩
        (Nat.lt_of_lt_of_le hlength (Nat.le_of_lt_succ hfuel))) ?_ hlength
        (.inr rfl)
        (fun string => classReads_more rfl (List.cons_ne_nil b rest) hinput)
      rw [class2Regexp]
      dsimp only
      rw [hinput]
  | done string =>
      refine .inr ⟨_, { Scanner.advanceChar .utf8 _ with
          state := .start
          machine := qregMachine.reset }, ?_,
        .register hescape ⟨hadvance.front, hadvance.rest⟩ rfl hlength
          (fun string' => classReads_done rfl (List.cons_ne_nil b rest) hinput)⟩
      rw [class2Regexp]
      dsimp only
      rw [hinput]

end Step

theorem class2Regexp_end (hescape : EscapesMetacharacters regexEscapeString)
    (escapeDefault : Bool) (fuel : Nat) :
    forall s : Scanner S, s.OnBoundary -> s.pattern.length < fuel ->
      ClassEnds regexEscapeString qregMachine escapeDefault fuel s := by
  induction fuel with
  | zero =>
      intro s _ hfuel
      cases hfuel
  | succ fuel ih =>
      intro s h hfuel
      rcases s with ⟨state, passed, _ | ⟨b, rest⟩, machine⟩
      · refine .inr ⟨_, _, by rw [class2Regexp], .noClass h ?_ ?_⟩
        · exact fun hpattern => absurd rfl hpattern
        · exact fun string => classReads_end rfl
      · cases state with
        | start => exact classEnds_start hescape ih h hfuel
        | ctlE => exact classEnds_ctlE ih h hfuel
        | anyQ => exact classEnds_anyQ hescape ih h hfuel
        | ctl | escape | not | many | alt =>
            refine .inr ⟨_, _, by rw [class2Regexp],
              .noClass h (fun _ hstate => by cases hstate) ?_⟩
            intro string
            exact classReads_none (fun hstate => by cases hstate)
              (fun hstate => by cases hstate) (fun hstate => by cases hstate)

theorem classAt_end (hescape : EscapesMetacharacters regexEscapeString)
    (escapeDefault : Bool) (h : s.OnBoundary) :
    (exists err, classAt regexEscapeString qregMachine .utf8 escapeDefault s =
      .error (.error err)) ∨
    exists cls t, classAt regexEscapeString qregMachine .utf8 escapeDefault s =
      .ok (cls, t) ∧ ClassEnd qregMachine s cls t :=
  class2Regexp_end hescape escapeDefault _ s h (Nat.lt_succ_self _)

end Classes

/-! ## Passes of the loop -/

/-- Wherever a part of a regular expression is appended, the whole is UTF-8 if
what stands in front is, and what was read from registers. -/
def Joins (piece : Bytes) (reads : Bytes -> Prop) : Prop :=
  forall re, Valid .utf8 (re ++ piece) <->
    Valid .utf8 re ∧ forall string, reads string -> Valid .utf8 string

theorem joins_valid {piece : Bytes} {reads : Bytes -> Prop}
    (h : Valid .utf8 piece)
    (hreads : forall string, reads string -> Valid .utf8 string) :
    Joins piece reads := by
  intro re
  constructor
  · intro hvalid
    exact ⟨valid_front hvalid h, hreads⟩
  · rintro ⟨hre, _⟩
    exact hre.append h

theorem Joins.append {piece piece' : Bytes} {reads reads' reads'' : Bytes -> Prop}
    (h : Joins piece reads) (h' : Joins piece' reads')
    (hreads : forall string, reads'' string <-> reads string ∨ reads' string) :
    Joins (piece ++ piece') reads'' := by
  intro re
  rw [← List.append_assoc, h' (re ++ piece), h re]
  constructor
  · rintro ⟨⟨hre, hfirst⟩, hsecond⟩
    refine ⟨hre, ?_⟩
    intro string hread
    rcases (hreads string).mp hread with hread | hread
    · exact hfirst string hread
    · exact hsecond string hread
  · rintro ⟨hre, hall⟩
    exact ⟨⟨hre, fun string hread => hall string ((hreads string).mpr (.inl hread))⟩,
      fun string hread => hall string ((hreads string).mpr (.inr hread))⟩

theorem Joins.congr {piece : Bytes} {reads reads' : Bytes -> Prop}
    (h : Joins piece reads)
    (hreads : forall string, reads' string <-> reads string) :
    Joins piece reads' := by
  intro re
  rw [h re]
  exact and_congr_right (fun _ =>
    forall_congr' (fun string => by rw [hreads string]))

/-- A class is enclosed in brackets. -/
theorem joins_class {cls : Bytes} {reads : Bytes -> Prop} (negated : Bool)
    (h : Valid .utf8 cls <-> forall string, reads string -> Valid .utf8 string) :
    Joins (utf8 (if negated then "[^" else "[") ++ cls ++ utf8 "]") reads := by
  have hclose : Valid .utf8 (cls ++ utf8 "]") <-> Valid .utf8 cls := by
    have hascii : Valid .utf8 (utf8 "]") := valid_ascii_text (by decide)
    constructor
    · exact fun hvalid => valid_front hvalid hascii
    · exact fun hvalid => hvalid.append hascii
  intro re
  rw [← h, ← hclose]
  cases negated with
  | false =>
      change Valid .utf8 (re ++ '['.toUInt8 :: (cls ++ utf8 "]")) <-> _
      rw [valid_append_ascii (by decide), valid_ascii_cons (by decide)]
  | true =>
      change Valid .utf8
        (re ++ '['.toUInt8 :: '^'.toUInt8 :: (cls ++ utf8 "]")) <-> _
      rw [valid_append_ascii (by decide), valid_ascii_cons (by decide),
        valid_ascii_cons (by decide)]

/-- Which passes with the same rest of the pattern come first. -/
def SearchState.weight : SearchState -> Nat
  | .escape => 0
  | .many | .alt => 2
  | _ => 1

/-- The measure of the loop in `teco_pattern2regexp()`. -/
def Scanner.measure {S : Type} (s : Scanner S) : Nat :=
  2 * s.pattern.length + s.state.weight

/-- The states at the condition of the loop. -/
def Scanner.InLoop {S : Type} (s : Scanner S) : Prop :=
  s.state ≠ .ctlE ∧ s.state ≠ .anyQ

theorem SearchState.weight_le (state : SearchState) : state.weight ≤ 2 := by
  cases state <;> decide

section Passes

variable {S : Type} {regexEscapeString : Bytes -> Bytes}
  {qregMachine : SpecMachine S} {s t : Scanner S}

/-- The scanner gets on and a piece of the regular expression is written. -/
structure Progress (s t : Scanner S) (piece : Bytes) : Prop where
  boundary : t.OnBoundary
  inLoop : t.InLoop
  shorter : t.pattern.length < s.pattern.length ∨
    (piece = [] ∧ t.pattern.length = s.pattern.length ∧ t.state = .escape)
  measure : t.measure < s.measure
  noNul : 0 ∉ piece

theorem measure_shorter (h : t.pattern.length < s.pattern.length)
    (hstate : s.state ≠ .escape) : t.measure < s.measure := by
  have hweight := t.state.weight_le
  have hpos : 0 < s.state.weight := by
    cases hs : s.state with
    | escape => exact absurd hs hstate
    | _ => decide
  unfold Scanner.measure
  omega

/-- The cursor passes a byte of ASCII. -/
theorem Progress.advance (h : s.OnBoundary) {b : UInt8} {rest piece : Bytes}
    (hpattern : s.pattern = b :: rest) (hb : b < 0x80)
    (hstate : s.state ≠ .escape) {state : SearchState}
    (hloop : state ≠ .ctlE ∧ state ≠ .anyQ) (hpiece : 0 ∉ piece) :
    Progress s { s.advance 1 with state := state } piece where
  boundary := ⟨(h.advance hpattern hb).front, (h.advance hpattern hb).rest⟩
  inLoop := hloop
  shorter := .inl (advance_length hpattern)
  measure := measure_shorter (advance_length hpattern) hstate
  noNul := hpiece

/-- Progress behind a class that was not complete. -/
theorem Progress.behind {u : Scanner S} {piece : Bytes} (h : Progress t u piece)
    (hlength : t.pattern.length ≤ s.pattern.length)
    (hmeasure : t.measure ≤ s.measure) : Progress s u piece where
  boundary := h.boundary
  inLoop := h.inLoop
  shorter := by
    rcases h.shorter with hshorter | ⟨hpiece, hsame, hstate⟩
    · exact .inl (Nat.lt_of_lt_of_le hshorter hlength)
    · rcases Nat.lt_or_eq_of_le hlength with hlt | heq
      · exact .inl (hsame ▸ hlt)
      · exact .inr ⟨hpiece, hsame.trans heq, hstate⟩
  measure := Nat.lt_of_lt_of_le h.measure hmeasure
  noNul := h.noNul

/-- How a pass ends which is no recursive call. -/
inductive PassEnd (reads : Bytes -> Prop) (s : Scanner S) (re : Bytes) :
    Except Failure (Pass S) -> Prop where
  | error (err : TecoError) : PassEnd reads s re (.error (.error err))
  | condition {t : Scanner S} {piece : Bytes} :
      Progress s t piece -> Joins piece reads ->
      PassEnd reads s re (.ok (.condition t (re ++ piece)))
  | endOfPattern {t : Scanner S} :
      t.OnBoundary -> t.pattern.length ≤ s.pattern.length ->
      (t.state = .alt -> s.state = .alt) ->
      (forall string, reads string -> Valid .utf8 string) ->
      PassEnd reads s re (.ok (.endOfPattern t re))
  | incomplete {t : Scanner S} :
      t.OnBoundary -> t.pattern.length ≤ s.pattern.length ->
      PassEnd reads s re (.ok (.incomplete t))

/-- A pattern element without registers. -/
theorem PassEnd.element {reads : Bytes -> Prop} {re piece : Bytes}
    (h : Progress s t piece) (hpiece : Valid .utf8 piece)
    (hreads : forall string, reads string -> Valid .utf8 string) :
    PassEnd reads s re (.ok (.condition t (re ++ piece))) :=
  .condition h (joins_valid hpiece hreads)

theorem PassEnd.silent {reads : Bytes -> Prop} {re : Bytes}
    (h : Progress s t [])
    (hreads : forall string, reads string -> Valid .utf8 string) :
    PassEnd reads s re (.ok (.condition t re)) := by
  have hend : PassEnd reads s re (.ok (.condition t (re ++ []))) :=
    .element h (valid_nil _) hreads
  rw [List.append_nil] at hend
  exact hend

theorem PassEnd.behind {reads : Bytes -> Prop} {re : Bytes}
    {result : Except Failure (Pass S)} (h : PassEnd reads t re result)
    (hlength : t.pattern.length ≤ s.pattern.length)
    (hmeasure : t.measure ≤ s.measure) (hstate : t.state = .alt -> s.state = .alt) :
    PassEnd reads s re result := by
  cases h with
  | error err => exact .error err
  | condition hprogress hjoins =>
      exact .condition (hprogress.behind hlength hmeasure) hjoins
  | endOfPattern hboundary hle halt hreads =>
      exact .endOfPattern hboundary (Nat.le_trans hle hlength)
        (fun h => hstate (halt h)) hreads
  | incomplete hboundary hle =>
      exact .incomplete hboundary (Nat.le_trans hle hlength)

section State

variable {nested : Scanner S -> Except Failure (Bytes × Scanner S)}
  {reads : Bytes -> Prop} {re : Bytes} {b : UInt8} {rest : Bytes}
  (h : s.OnBoundary) (hpattern : s.pattern = b :: rest)
  (hreads : forall string, reads string -> Valid .utf8 string)

include h hpattern hreads

theorem passState_start (hstate : s.state = .start) :
    PassEnd reads s re
      (passState regexEscapeString qregMachine .utf8 nested b s re) := by
  have hescape : s.state ≠ .escape := by
    rw [hstate]
    intro heq
    cases heq
  unfold passState
  rw [hstate]
  dsimp only
  by_cases hcaret : b = '^'.toUInt8
  · rw [if_pos hcaret]
    refine .silent (.advance h hpattern ?_ hescape (by decide)
      List.not_mem_nil) hreads
    rw [hcaret]
    decide
  rw [if_neg hcaret]
  by_cases hquote : b = ctl 'Q' ∨ b = ctl 'R'
  · rw [if_pos hquote]
    refine .silent (.advance h hpattern ?_ hescape (by decide)
      List.not_mem_nil) hreads
    rcases hquote with rfl | rfl
    · decide
    · decide
  rw [if_neg hquote]
  by_cases hany : b = ctl 'X'
  · rw [if_pos hany]
    have hb : b < 0x80 := by
      rw [hany]
      decide
    have hloop : s.state ≠ .ctlE ∧ s.state ≠ .anyQ := by
      rw [hstate]
      decide
    exact .element (.advance h hpattern hb hescape hloop (by decide))
      (valid_ascii_text (by decide)) hreads
  rw [if_neg hany]
  by_cases hnot : b = ctl 'N'
  · rw [if_pos hnot]
    refine .silent (.advance h hpattern ?_ hescape (by decide)
      List.not_mem_nil) hreads
    rw [hnot]
    decide
  rw [if_neg hnot]
  refine .silent ⟨⟨h.front, h.rest⟩, ⟨?_, ?_⟩, .inr ⟨rfl, rfl, rfl⟩, ?_,
    List.not_mem_nil⟩ hreads
  · intro heq
    cases heq
  · intro heq
    cases heq
  · unfold Scanner.measure
    rw [hstate]
    exact Nat.lt_succ_self _

theorem passState_ctlE (hstate : s.state = .ctlE) :
    PassEnd reads s re
      (passState regexEscapeString qregMachine .utf8 nested b s re) := by
  have hescape : s.state ≠ .escape := by
    rw [hstate]
    intro heq
    cases heq
  unfold passState
  rw [hstate]
  dsimp only
  unfold passCtlE
  split
  · next hkey =>
      exact .silent (.advance h hpattern (upperKey_ascii hkey) hescape
        (by decide) List.not_mem_nil) hreads
  · next hkey =>
      exact .element (.advance h hpattern (upperKey_ascii hkey) hescape
        (by decide) (by decide)) (valid_ascii_text (by decide)) hreads
  · next hkey =>
      exact .element (.advance h hpattern (upperKey_ascii hkey) hescape
        (by decide) (by decide)) (valid_ascii_text (by decide)) hreads
  · next hkey =>
      exact .element (.advance h hpattern (upperKey_ascii hkey) hescape
        (by decide) (by decide)) (valid_ascii_text (by decide)) hreads
  · exact .error _

theorem passState_escape (hescape : EscapesMetacharacters regexEscapeString)
    (hstate : s.state = .escape) :
    PassEnd reads s re
      (passState regexEscapeString qregMachine .utf8 nested b s re) := by
  have hne : s.pattern ≠ [] := by
    rw [hpattern]
    exact List.cons_ne_nil b rest
  have hshorter := advanceChar_length hne
  unfold passState
  rw [hstate]
  dsimp only
  refine .element ⟨⟨(h.advanceChar hne).front, (h.advanceChar hne).rest⟩,
    show SearchState.start ≠ .ctlE ∧ SearchState.start ≠ .anyQ by decide,
    .inl hshorter, ?_, ?_⟩ ?_ hreads
  · unfold Scanner.measure
    rw [hstate]
    change 2 * (s.advanceChar .utf8).pattern.length + 1 <
      2 * s.pattern.length + 0
    omega
  · rw [hescape]
    exact escape_ne_zero _
  · rw [hescape, valid_rewrite escapes_rewrite]
    exact firstChar_valid h hne

theorem passState_alt (hstate : s.state = .alt)
    (hb : b = ','.toUInt8 ∨ b = ']'.toUInt8) :
    PassEnd reads s re
      (passState regexEscapeString qregMachine .utf8 nested b s re) := by
  have hescape : s.state ≠ .escape := by
    rw [hstate]
    intro heq
    cases heq
  unfold passState
  rw [hstate]
  dsimp only
  rcases hb with rfl | rfl
  · have hloop : s.state ≠ .ctlE ∧ s.state ≠ .anyQ := by
      rw [hstate]
      decide
    exact .element (.advance h hpattern (by decide) hescape hloop (by decide))
      (valid_ascii_text (by decide)) hreads
  · rw [if_neg (by decide), if_pos rfl]
    exact .element (.advance h hpattern (by decide) hescape (by decide)
      (by decide)) (valid_ascii_text (by decide)) hreads

end State

/-- A class between brackets. -/
theorem ClassEnd.appended {s' : Scanner S} {cls : Bytes} (re : Bytes)
    (h : ClassEnd qregMachine s' cls t) (hcls : cls ≠ []) (negated : Bool)
    (hlength : s'.pattern.length = s.pattern.length)
    (hstate : s.state ≠ .escape) :
    PassEnd (ClassReads qregMachine s') s re
      (appendClass re (utf8 (if negated then "[^" else "[")) cls t) := by
  rcases h.found hcls with ⟨hstart, hshorter⟩
  rw [hlength] at hshorter
  unfold appendClass
  rw [if_pos hstart, List.append_assoc, List.append_assoc, ← List.append_assoc
    (utf8 _)]
  refine .condition ⟨h.boundary, ?_, .inl hshorter,
    measure_shorter hshorter hstate, ?_⟩ (joins_class negated h.valid)
  · unfold Scanner.InLoop
    rw [hstart]
    decide
  · rw [List.mem_append, List.mem_append]
    rintro ((hopen | hmem) | hclose)
    · cases negated with
      | true => exact absurd hopen (by decide)
      | false => exact absurd hopen (by decide)
    · exact h.noNul hmem
    · exact absurd hclose (by decide)

theorem ClassEnd.length_le {s' : Scanner S} {cls : Bytes}
    (h : ClassEnd qregMachine s' cls t) :
    t.pattern.length ≤ s'.pattern.length := by
  by_cases hcls : cls = []
  · rcases h.notFound hcls with ⟨rfl, _⟩ | ⟨hshorter, _⟩
    · exact Nat.le_refl _
    · exact Nat.le_of_lt hshorter
  · exact Nat.le_of_lt (h.found hcls).2

/-- What is no class in the other states. -/
theorem classAt_other (hstate : s.state = .ctl ∨ s.state = .escape ∨
      s.state = .not ∨ s.state = .many ∨ s.state = .alt)
    (escapeDefault : Bool) :
    classAt regexEscapeString qregMachine .utf8 escapeDefault s =
      .ok ([], s) := by
  rcases s with ⟨state, passed, _ | ⟨b, rest⟩, machine⟩
  · rfl
  · rcases hstate with h | h | h | h | h <;> cases h <;> rfl

theorem passState_not (hescape : EscapesMetacharacters regexEscapeString)
    {nested : Scanner S -> Except Failure (Bytes × Scanner S)} {b : UInt8}
    (re : Bytes) (h : s.OnBoundary) (hstate : s.state = .not) :
    PassEnd (PassReads qregMachine s) s re
      (passState regexEscapeString qregMachine .utf8 nested b s re) := by
  have hbefore : s.beforeClass = { s with state := .start } := if_pos hstate
  have hreads : PassReads qregMachine s =
      ClassReads qregMachine { s with state := .start } := by
    unfold PassReads
    rw [hbefore]
  have hne : s.state ≠ .escape := by
    rw [hstate]
    decide
  unfold passState
  rw [hstate, hreads]
  dsimp only
  rcases classAt_end hescape true
    (show ({ s with state := .start } : Scanner S).OnBoundary from
      ⟨h.front, h.rest⟩) with ⟨err, herr⟩ | ⟨cls, t, hok, hend⟩
  · rw [herr]
    exact .error err
  · rw [hok]
    change PassEnd _ s re (if cls = [] then Except.ok (Pass.incomplete t) else
      appendClass re (utf8 "[^") cls t)
    by_cases hcls : cls = []
    · rw [if_pos hcls]
      exact .incomplete hend.boundary hend.length_le
    · rw [if_neg hcls]
      exact hend.appended re hcls true rfl hne

/-! ### Classes at the beginning of a pass -/

section Class

variable {nested : Scanner S -> Except Failure (Bytes × Scanner S)}
  {re cls : Bytes}

theorem pass_classError {failure : Failure}
    (h : classAt regexEscapeString qregMachine .utf8 false (resolveCaret s) =
      .error failure) :
    pass regexEscapeString qregMachine .utf8 nested s re = .error failure := by
  unfold pass
  rw [h]
  rfl

theorem pass_classFound
    (h : classAt regexEscapeString qregMachine .utf8 false (resolveCaret s) =
      .ok (cls, t)) (hcls : cls ≠ []) :
    pass regexEscapeString qregMachine .utf8 nested s re =
      appendClass re (utf8 "[") cls t := by
  unfold pass
  rw [h]
  exact if_pos hcls

theorem pass_classEnd
    (h : classAt regexEscapeString qregMachine .utf8 false (resolveCaret s) =
      .ok ([], t)) (hpattern : t.pattern = []) :
    pass regexEscapeString qregMachine .utf8 nested s re =
      .ok (.endOfPattern t re) := by
  rw [pass_unclassed h, hpattern]

theorem pass_state {b : UInt8} {rest : Bytes}
    (h : classAt regexEscapeString qregMachine .utf8 false (resolveCaret s) =
      .ok ([], t)) (hpattern : t.pattern = b :: rest) :
    pass regexEscapeString qregMachine .utf8 nested s re =
      passState regexEscapeString qregMachine .utf8 nested b t re := by
  rw [pass_unclassed h, hpattern]

end Class

/-! ### Carets -/

theorem controlHead_ascii {b : UInt8} (hb : b < 0x80) :
    UInt8.ofNat (ctlKey (asciiToUpper b.toNat)) < 0x80 := by
  have hupper : asciiToUpper b.toNat ≤ b.toNat := by
    unfold asciiToUpper
    split
    · exact Nat.sub_le _ _
    · exact Nat.le_refl _
  have hkey : ctlKey (asciiToUpper b.toNat) ≤ asciiToUpper b.toNat :=
    Nat.sub_le _ _
  have hbyte := UInt8.lt_iff_toNat_lt.mp hb
  have hlow : ctlKey (asciiToUpper b.toNat) < 128 :=
    Nat.lt_of_le_of_lt (Nat.le_trans hkey hupper) hbyte
  rw [UInt8.lt_iff_toNat_lt, UInt8.toNat_ofNat',
    Nat.mod_eq_of_lt (Nat.lt_trans hlow (by decide))]
  exact hlow

theorem controlHead_length (pattern : Bytes) :
    (controlHead pattern).length = pattern.length := by
  cases pattern <;> rfl

theorem resolveCaret_length (s : Scanner S) :
    (resolveCaret s).pattern.length = s.pattern.length := by
  unfold resolveCaret
  split
  · exact controlHead_length _
  · rfl

/-- A caret in front of ASCII. -/
theorem resolveCaret_boundary (h : s.OnBoundary) (hcaret : ¬ s.BadCaret) :
    (resolveCaret s).OnBoundary := by
  unfold resolveCaret
  split
  · next hstate =>
      refine ⟨h.front, ?_⟩
      have hrest := h.rest
      change Valid .utf8 (controlHead s.pattern)
      cases hpattern : s.pattern with
      | nil => exact valid_nil _
      | cons b rest =>
          have hb : b < 0x80 := by
            by_cases hb : b < 0x80
            · exact hb
            · exact absurd ⟨hstate, b, rest, hpattern, hb⟩ hcaret
          rw [hpattern] at hrest
          exact (valid_ascii_cons (controlHead_ascii hb) rest).mpr
            ((valid_ascii_cons hb rest).mp hrest)
  · exact h

/-- The first byte of another character becomes one that begins no text. -/
theorem resolveCaret_broken (h : s.OnBoundary) (hcaret : s.BadCaret) :
    ¬ (resolveCaret s).OnBoundary := by
  rcases hcaret with ⟨hstate, b, rest, hpattern, hb⟩
  have hrest := h.rest
  rw [hpattern] at hrest
  have hlead : 0xC0 ≤ b := by
    by_cases hlow : b < 0xC0
    · exact absurd hrest
        (not_valid_continuation (UInt8.not_lt.mp hb) hlow rest)
    · exact UInt8.not_lt.mp hlow
  have hhigh := (valid_split hrest).1
  have hkeys : forall n, n < 248 -> 192 ≤ n ->
      128 ≤ ctlKey (asciiToUpper n) ∧ ctlKey (asciiToUpper n) < 192 := by
    decide +kernel
  have hkey := hkeys b.toNat (UInt8.lt_iff_toNat_lt.mp hhigh)
    (UInt8.le_iff_toNat_le.mp hlead)
  have hbyte : (UInt8.ofNat (ctlKey (asciiToUpper b.toNat))).toNat =
      ctlKey (asciiToUpper b.toNat) := by
    rw [UInt8.toNat_ofNat',
      Nat.mod_eq_of_lt (Nat.lt_trans hkey.2 (by decide))]
  intro hboundary
  have hbroken := hboundary.rest
  unfold resolveCaret at hbroken
  rw [if_pos hstate, hpattern] at hbroken
  refine not_valid_continuation ?_ ?_ rest hbroken
  · rw [UInt8.le_iff_toNat_le, hbyte]
    exact hkey.1
  · rw [UInt8.lt_iff_toNat_lt, hbyte]
    exact hkey.2

/-! ### The end of a pass -/

theorem resolveCaret_other (hstate : s.state ≠ .ctl) : resolveCaret s = s :=
  if_neg hstate

/-- A pass which begins with a class or an element of a pattern. -/
theorem pass_start_end (hescape : EscapesMetacharacters regexEscapeString)
    {nested : Scanner S -> Except Failure (Bytes × Scanner S)} (re : Bytes)
    (h : (resolveCaret s).OnBoundary)
    (hstate : s.state = .start ∨ s.state = .ctl) :
    PassEnd (PassReads qregMachine s) s re
      (pass regexEscapeString qregMachine .utf8 nested s re) := by
  have hresolved : (resolveCaret s).state = .start := by
    unfold resolveCaret
    rcases hstate with hstate | hstate
    · rw [hstate, if_neg (by decide)]
      exact hstate
    · rw [if_pos hstate]
  have hweight : s.state.weight = 1 ∧ s.state ≠ .escape ∧ s.state ≠ .not := by
    rcases hstate with hstate | hstate
    · rw [hstate]
      decide
    · rw [hstate]
      decide
  have hreads : PassReads qregMachine s =
      ClassReads qregMachine (resolveCaret s) := by
    unfold PassReads Scanner.beforeClass
    rw [if_neg hweight.2.2]
  have hlength := resolveCaret_length s
  rw [hreads]
  rcases classAt_end hescape false h with ⟨err, herr⟩ | ⟨cls, t, hok, hend⟩
  · rw [pass_classError herr]
    exact .error err
  by_cases hcls : cls = []
  · subst hcls
    have hvalid := hend.valid.mp (valid_nil _)
    have hle := hend.length_le
    rw [hlength] at hle
    have ht : t.state = .start ∨ t.state = .ctlE ∨
        t.state = .anyQ ∧ t.pattern = [] := by
      rcases hend.notFound rfl with ⟨rfl, _⟩ | ⟨_, hstates⟩
      · exact .inl hresolved
      · exact hstates
    have hmeasure (hone : t.state.weight = 1) : t.measure ≤ s.measure := by
      unfold Scanner.measure
      rw [hweight.1, hone]
      exact Nat.add_le_add_right (Nat.mul_le_mul_left 2 hle) 1
    have halt (ht : t.state ≠ .alt) : t.state = .alt -> s.state = .alt :=
      fun h => absurd h ht
    cases hpattern : t.pattern with
    | nil =>
        rw [pass_classEnd hok hpattern]
        refine .endOfPattern hend.boundary hle (halt ?_) hvalid
        rcases ht with ht | ht | ht
        · rw [ht]
          decide
        · rw [ht]
          decide
        · rw [ht.1]
          decide
    | cons b rest =>
        rw [pass_state hok hpattern]
        rcases ht with ht | ht | ht
        · exact (passState_start hend.boundary hpattern hvalid ht).behind hle
            (hmeasure (by rw [ht]; rfl)) (halt (by rw [ht]; decide))
        · exact (passState_ctlE hend.boundary hpattern hvalid ht).behind hle
            (hmeasure (by rw [ht]; rfl)) (halt (by rw [ht]; decide))
        · cases hpattern.symm.trans ht.2
  · rw [pass_classFound hok hcls]
    exact hend.appended re hcls false hlength hweight.2.1

/-- Outside of its initial state and behind `^N`, a pass reads no class. -/
theorem passReads_none (hstate : s.state = .escape ∨ s.state = .many ∨
      s.state = .alt) (string : Bytes) :
    ¬ PassReads qregMachine s string := by
  have hstates : s.state ≠ .ctl ∧ s.state ≠ .not ∧ s.state ≠ .anyQ ∧
      s.state ≠ .start ∧ s.state ≠ .ctlE := by
    rcases hstate with hstate | hstate | hstate <;> rw [hstate] <;> decide
  have hbefore : s.beforeClass = s :=
    (if_neg hstates.2.1).trans (resolveCaret_other hstates.1)
  unfold PassReads
  rw [hbefore]
  exact classReads_none hstates.2.2.1
    (fun hstart => absurd hstart hstates.2.2.2.1)
    (fun hctlE => absurd hctlE hstates.2.2.2.2)

theorem pass_end (hescape : EscapesMetacharacters regexEscapeString)
    {nested : Scanner S -> Except Failure (Bytes × Scanner S)} (re : Bytes)
    (h : s.OnBoundary) (hcaret : ¬ s.BadCaret) (hloop : s.InLoop)
    (hcalls : ¬ s.Calls) :
    PassEnd (PassReads qregMachine s) s re
      (pass regexEscapeString qregMachine .utf8 nested s re) := by
  by_cases hstart : s.state = .start ∨ s.state = .ctl
  · exact pass_start_end hescape re (resolveCaret_boundary h hcaret) hstart
  have hother : s.state = .escape ∨ s.state = .not ∨ s.state = .many ∨
      s.state = .alt := by
    cases hstate : s.state with
    | start => exact absurd (.inl hstate) hstart
    | ctl => exact absurd (.inr hstate) hstart
    | escape => exact .inl rfl
    | not => exact .inr (.inl rfl)
    | ctlE => exact absurd hstate hloop.1
    | anyQ => exact absurd hstate hloop.2
    | many => exact .inr (.inr (.inl rfl))
    | alt => exact .inr (.inr (.inr rfl))
  have hresolve : resolveCaret s = s :=
    resolveCaret_other (fun hctl => hstart (.inr hctl))
  have hclass : classAt regexEscapeString qregMachine .utf8 false
      (resolveCaret s) = .ok ([], s) := by
    rw [hresolve]
    exact classAt_other (.inr hother) false
  have hreads (hstate : s.state = .escape ∨ s.state = .many ∨ s.state = .alt) :
      forall string, PassReads qregMachine s string -> Valid .utf8 string :=
    fun string hread => absurd hread (passReads_none hstate string)
  cases hpattern : s.pattern with
  | nil =>
      rw [pass_classEnd hclass hpattern]
      refine .endOfPattern h (Nat.le_refl _) id ?_
      intro string hread
      rcases hother with hstate | hstate | hstate
      · exact hreads (.inl hstate) string hread
      · have hbefore : s.beforeClass = { s with state := .start } :=
          if_pos hstate
        unfold PassReads at hread
        rw [hbefore] at hread
        exact absurd hread (classReads_end hpattern)
      · exact hreads (.inr hstate) string hread
  | cons b rest =>
      rw [pass_state hclass hpattern]
      rcases hother with hstate | hstate | hstate | hstate
      · exact passState_escape h hpattern (hreads (.inl hstate)) hescape hstate
      · exact passState_not hescape re h hstate
      · exact absurd ⟨b, rest, hpattern, .inl hstate⟩ hcalls
      · refine passState_alt h hpattern (hreads (.inr (.inr hstate))) hstate ?_
        by_cases hcomma : b = ','.toUInt8
        · exact .inl hcomma
        by_cases hclose : b = ']'.toUInt8
        · exact .inr hclose
        exact absurd ⟨b, rest, hpattern, .inr ⟨hstate, hcomma, hclose⟩⟩ hcalls

/-- What becomes of the result of a recursive call. -/
def afterCall (before after : Bytes) (state : SearchState) (re : Bytes)
    (result : Bytes × Scanner S) : Except Failure (Pass S) :=
  if result.1 = [] then .ok (.incomplete result.2)
  else
    .ok (.condition { result.2 with state := state }
      (re ++ (before ++ result.1 ++ after)))

/-- A pass that consists of a recursive call. -/
theorem pass_calls {nested : Scanner S -> Except Failure (Bytes × Scanner S)}
    (re : Bytes) (hcalls : s.Calls) :
    exists before after state,
      (before ++ after).all (fun b => 0 < b ∧ b < 0x80) = true ∧
      (state = .start ∨ state = .alt) ∧
      pass regexEscapeString qregMachine .utf8 nested s re =
        nested s >>= afterCall before after state re := by
  rcases hcalls with ⟨b, rest, hpattern, hstate | ⟨hstate, hcomma, hclose⟩⟩
  · have hclass : classAt regexEscapeString qregMachine .utf8 false
        (resolveCaret s) = .ok ([], s) := by
      rw [resolveCaret_other (by rw [hstate]; decide)]
      exact classAt_other (.inr (.inr (.inr (.inl hstate)))) false
    refine ⟨utf8 "(?:", utf8 ")+", .start, by decide, .inl rfl, ?_⟩
    rw [pass_state hclass hpattern]
    unfold passState
    rw [hstate]
    refine congrArg (nested s >>= ·) (funext ?_)
    rintro ⟨temp, t⟩
    unfold afterCall
    rw [← List.append_assoc, ← List.append_assoc]
  · have hclass : classAt regexEscapeString qregMachine .utf8 false
        (resolveCaret s) = .ok ([], s) := by
      rw [resolveCaret_other (by rw [hstate]; decide)]
      exact classAt_other (.inr (.inr (.inr (.inr hstate)))) false
    refine ⟨[], [], .alt, rfl, .inr rfl, ?_⟩
    rw [pass_state hclass hpattern]
    unfold passState
    rw [hstate]
    dsimp only
    rw [if_neg hcomma, if_neg hclose]
    refine congrArg (nested s >>= ·) (funext ?_)
    rintro ⟨temp, t⟩
    unfold afterCall
    rw [List.nil_append, List.append_nil]

end Passes

/-! ## Runs -/

section Runs

variable {S : Type} {regexEscapeString : Bytes -> Bytes}
  {qregMachine : SpecMachine S} {s t : Scanner S} {fuel : Nat}
  {singleExpr : Bool} {re : Bytes}

/-- A run gets the string of a register. -/
def RunReads (regexEscapeString : Bytes -> Bytes) (qregMachine : SpecMachine S)
    (h : Head S) (string : Bytes) : Prop :=
  exists h', Passes regexEscapeString qregMachine h h' ∧
    PassReads qregMachine h'.scanner string

/-- Behind a pass. -/
def afterPass (regexEscapeString : Bytes -> Bytes) (qregMachine : SpecMachine S)
    (fuel : Nat) (singleExpr : Bool) :
    Pass S -> Except Failure (Bytes × Scanner S)
  | .incomplete s => .ok ([], s)
  | .endOfPattern s re => complete s re
  | .condition s re =>
      if singleExpr ∧ s.state = .start then complete s re
      else
        pattern2RegexpFrom regexEscapeString qregMachine .utf8 fuel singleExpr s
          re

theorem pattern2RegexpFrom_succ :
    pattern2RegexpFrom regexEscapeString qregMachine .utf8 (fuel + 1) singleExpr
      s re =
        (pass regexEscapeString qregMachine .utf8
          (nestedCall regexEscapeString qregMachine fuel) s re >>=
            afterPass regexEscapeString qregMachine fuel singleExpr) := by
  rw [pattern2RegexpFrom]
  refine congrArg (pass _ _ _ _ _ _ >>= ·) (funext ?_)
  intro end'
  cases end' <;> rfl

/-- How a run ends. -/
inductive RunEnd (reads : Bytes -> Prop) (leaves : Prop) (s : Scanner S)
    (re : Bytes) : Except Failure (Bytes × Scanner S) -> Prop where
  | error (err : TecoError) :
      ¬ leaves -> RunEnd reads leaves s re (.error (.error err))
  | incomplete {t : Scanner S} :
      ¬ leaves -> t.OnBoundary -> t.pattern.length ≤ s.pattern.length ->
      RunEnd reads leaves s re (.ok ([], t))
  | done {t : Scanner S} {out : Bytes} :
      leaves -> t.OnBoundary -> t.pattern.length ≤ s.pattern.length ->
      (out = [] ∨ t.pattern.length < s.pattern.length ∨ s.state = .alt) ->
      0 ∉ out -> Joins out reads ->
      RunEnd reads leaves s re (.ok (re ++ out, t))

theorem notMem_append_iff {x y : Bytes} : 0 ∉ x ++ y <-> 0 ∉ x ∧ 0 ∉ y := by
  rw [List.mem_append, not_or]

/-- The end of the loop. -/
theorem complete_end {reads : Bytes -> Prop} {leaves : Prop} {piece : Bytes}
    (hleaves : leaves) (hboundary : t.OnBoundary)
    (hle : t.pattern.length ≤ s.pattern.length)
    (hshorter : piece = [] ∨ t.pattern.length < s.pattern.length)
    (halt : t.state = .alt -> s.state = .alt) (hre : 0 ∉ re)
    (hpiece : 0 ∉ piece) (hjoins : Joins piece reads) :
    RunEnd reads leaves s re (complete t (re ++ piece)) := by
  unfold complete
  by_cases hstate : t.state = .alt
  · have hout : re ++ piece ++ utf8 ")" = re ++ (piece ++ utf8 ")") :=
      List.append_assoc _ _ _
    have hall : 0 ∉ piece ++ utf8 ")" :=
      notMem_append_iff.mpr ⟨hpiece, by decide⟩
    rw [if_pos hstate, hout, if_neg (notMem_append_iff.mpr ⟨hre, hall⟩)]
    refine .done hleaves hboundary hle (.inr (.inr (halt hstate))) hall ?_
    have hclose : Joins (utf8 ")") (fun _ => False) :=
      joins_valid (valid_ascii_text (by decide)) (fun _ h => h.elim)
    exact hjoins.append hclose (fun string => (or_iff_left id).symm)
  · rw [if_neg hstate, if_neg (notMem_append_iff.mpr ⟨hre, hpiece⟩)]
    refine .done hleaves hboundary hle ?_ hpiece hjoins
    rcases hshorter with hnil | hshorter
    · exact .inl hnil
    · exact .inr (.inl hshorter)

/-- A run behind a pass that wrote a piece of the regular expression. -/
theorem RunEnd.behind {reads reads' reads'' : Bytes -> Prop}
    {leaves leaves' : Prop} {piece : Bytes}
    {result : Except Failure (Bytes × Scanner S)}
    (h : RunEnd reads' leaves' t (re ++ piece) result)
    (hprogress : Progress s t piece) (hjoins : Joins piece reads)
    (hreads : forall string, reads'' string <-> reads string ∨ reads' string)
    (hleaves : leaves <-> leaves') : RunEnd reads'' leaves s re result := by
  have hle : t.pattern.length ≤ s.pattern.length := by
    rcases hprogress.shorter with hlt | ⟨_, heq, _⟩
    · exact Nat.le_of_lt hlt
    · exact Nat.le_of_eq heq
  cases h with
  | error err hnot => exact .error err (fun h => hnot (hleaves.mp h))
  | incomplete hnot hboundary hle' =>
      exact .incomplete (fun h => hnot (hleaves.mp h)) hboundary
        (Nat.le_trans hle' hle)
  | @done u out hdone hboundary hle' hshorter hout hjoins' =>
      rw [List.append_assoc]
      refine .done (hleaves.mpr hdone) hboundary (Nat.le_trans hle' hle) ?_
        (notMem_append_iff.mpr ⟨hprogress.noNul, hout⟩)
        (hjoins.append hjoins' hreads)
      rcases hprogress.shorter with hlt | ⟨hpiece, heq, hstate⟩
      · exact .inr (.inl (Nat.lt_of_le_of_lt hle' hlt))
      · rcases hshorter with hnil | hlt | halt
        · refine .inl ?_
          rw [hpiece, hnil]
          rfl
        · exact .inr (.inl (Nat.lt_of_lt_of_eq hlt heq))
        · cases hstate.symm.trans halt

/-! ### What a run reads -/

theorem follows_iff {h' : Head S} :
    Follows regexEscapeString qregMachine ⟨fuel + 1, singleExpr, s, re⟩ h' <->
      (s.Calls ∧ h' = ⟨fuel, true, { s with state := .start }, []⟩) ∨
      exists t re', pass regexEscapeString qregMachine .utf8
        (nestedCall regexEscapeString qregMachine fuel) s re =
          .ok (.condition t re') ∧
        ¬ (singleExpr ∧ t.state = .start) ∧ h' = ⟨fuel, singleExpr, t, re'⟩ := by
  constructor
  · intro h
    cases h with
    | nested hcalls => exact .inl ⟨hcalls, rfl⟩
    | next hpass hnext => exact .inr ⟨_, _, hpass, hnext, rfl⟩
  · rintro (⟨hcalls, rfl⟩ | ⟨t, re', hpass, hnext, rfl⟩)
    · exact .nested hcalls
    · exact .next hpass hnext

theorem runReads_iff {h : Head S} {string : Bytes} :
    RunReads regexEscapeString qregMachine h string <->
      PassReads qregMachine h.scanner string ∨
      exists h', Follows regexEscapeString qregMachine h h' ∧
        RunReads regexEscapeString qregMachine h' string := by
  constructor
  · rintro ⟨h', hpasses, hread⟩
    rcases Relation.ReflTransGen.cases_head hpasses with rfl | ⟨m, hm, hpasses⟩
    · exact .inl hread
    · exact .inr ⟨m, hm, h', hpasses, hread⟩
  · rintro (hread | ⟨m, hm, h', hpasses, hread⟩)
    · exact ⟨h, .refl, hread⟩
    · exact ⟨h', .head hm hpasses, hread⟩

/-- No pass of a run changes a character outside of ASCII. -/
def NoBadCaret (regexEscapeString : Bytes -> Bytes)
    (qregMachine : SpecMachine S) (h : Head S) : Prop :=
  forall h', Passes regexEscapeString qregMachine h h' -> ¬ h'.scanner.BadCaret

theorem NoBadCaret.follows {h h' : Head S}
    (hno : NoBadCaret regexEscapeString qregMachine h)
    (hfollows : Follows regexEscapeString qregMachine h h') :
    NoBadCaret regexEscapeString qregMachine h' :=
  fun _ hpasses => hno _ (.head hfollows hpasses)

/-- What is read in a pass, and in its recursive call. -/
def ReadsHere (regexEscapeString : Bytes -> Bytes) (qregMachine : SpecMachine S)
    (fuel : Nat) (s : Scanner S) (string : Bytes) : Prop :=
  PassReads qregMachine s string ∨ (s.Calls ∧
    RunReads regexEscapeString qregMachine
      ⟨fuel, true, { s with state := .start }, []⟩ string)

theorem runReads_condition {re' : Bytes}
    (hpass : pass regexEscapeString qregMachine .utf8
      (nestedCall regexEscapeString qregMachine fuel) s re =
        .ok (.condition t re')) (string : Bytes) :
    RunReads regexEscapeString qregMachine ⟨fuel + 1, singleExpr, s, re⟩
      string <->
        ReadsHere regexEscapeString qregMachine fuel s string ∨
          (¬ (singleExpr ∧ t.state = .start) ∧
            RunReads regexEscapeString qregMachine ⟨fuel, singleExpr, t, re'⟩
              string) := by
  rw [runReads_iff]
  unfold ReadsHere
  constructor
  · rintro (hread | ⟨h', hfollows, hread⟩)
    · exact .inl (.inl hread)
    · rcases follows_iff.mp hfollows with
        ⟨hcalls, rfl⟩ | ⟨t', re'', hpass', hnext, rfl⟩
      · exact .inl (.inr ⟨hcalls, hread⟩)
      · cases hpass.symm.trans hpass'
        exact .inr ⟨hnext, hread⟩
  · rintro ((hread | ⟨hcalls, hread⟩) | ⟨hnext, hread⟩)
    · exact .inl hread
    · exact .inr ⟨_, .nested hcalls, hread⟩
    · exact .inr ⟨_, .next hpass hnext, hread⟩

/-- The last pass of a run. -/
theorem runReads_last
    (hpass : forall t re', pass regexEscapeString qregMachine .utf8
      (nestedCall regexEscapeString qregMachine fuel) s re ≠
        .ok (.condition t re')) (string : Bytes) :
    RunReads regexEscapeString qregMachine ⟨fuel + 1, singleExpr, s, re⟩
      string <-> ReadsHere regexEscapeString qregMachine fuel s string := by
  rw [runReads_iff]
  unfold ReadsHere
  constructor
  · rintro (hread | ⟨h', hfollows, hread⟩)
    · exact .inl hread
    · rcases follows_iff.mp hfollows with
        ⟨hcalls, rfl⟩ | ⟨t, re', hpass', _⟩
      · exact .inr ⟨hcalls, hread⟩
      · exact absurd hpass' (hpass t re')
  · rintro (hread | ⟨hcalls, hread⟩)
    · exact .inl hread
    · exact .inr ⟨_, .nested hcalls, hread⟩

/-! ### The induction -/

/-- A pass that consists of a recursive call ends like another one. -/
theorem call_end {leaves : Prop} (h : s.OnBoundary) (hcalls : s.Calls)
    (re : Bytes)
    (hnested : RunEnd
      (RunReads regexEscapeString qregMachine
        ⟨fuel, true, { s with state := .start }, []⟩) leaves
      { s with state := .start } []
      (nestedCall regexEscapeString qregMachine fuel s)) :
    PassEnd (ReadsHere regexEscapeString qregMachine fuel s) s re
      (pass regexEscapeString qregMachine .utf8
        (nestedCall regexEscapeString qregMachine fuel) s re) := by
  have hstate : s.state = .many ∨ s.state = .alt := by
    rcases hcalls with ⟨_, _, _, hstate | ⟨hstate, _⟩⟩
    · exact .inl hstate
    · exact .inr hstate
  have hescape : s.state ≠ .escape := by
    rcases hstate with hstate | hstate <;> rw [hstate] <;> decide
  rcases @pass_calls S regexEscapeString qregMachine s
    (nestedCall regexEscapeString qregMachine fuel) re hcalls with
    ⟨before, after, state, hascii, hafter, hpass⟩
  rw [hpass]
  generalize nestedCall regexEscapeString qregMachine fuel s = result
    at hnested
  cases hnested with
  | error err _ => exact .error err
  | @incomplete t _ hboundary hle => exact .incomplete hboundary hle
  | @done t out _ hboundary hle hshorter hout hjoins =>
      change PassEnd _ s re (afterCall before after state re (out, t))
      unfold afterCall
      by_cases hnil : out = []
      · rw [if_pos hnil]
        exact .incomplete hboundary hle
      rw [if_neg hnil]
      have hlt : t.pattern.length < s.pattern.length := by
        rcases hshorter with hnil' | hlt | halt
        · exact absurd hnil' hnil
        · exact hlt
        · cases halt
      have hpiece : forall b, b ∈ before ++ after -> 0 < b ∧ b < 0x80 :=
        fun b hb => of_decide_eq_true (List.all_eq_true.mp hascii b hb)
      have hnul : 0 ∉ before ∧ 0 ∉ after := by
        refine notMem_append_iff.mp ?_
        intro hmem
        exact absurd (hpiece 0 hmem).1 (by decide)
      have hjoin (part : Bytes) (hpart : forall b, b ∈ part -> b < 0x80) :
          Joins part (fun _ => False) :=
        joins_valid (valid_ascii hpart) (fun _ h => h.elim)
      have hbefore := hjoin before
        (fun b hb => (hpiece b (List.mem_append_left after hb)).2)
      have hbehind := hjoin after
        (fun b hb => (hpiece b (List.mem_append_right before hb)).2)
      have hall := (hbefore.append hjoins
        (fun string => (or_iff_right id).symm)).append hbehind
        (fun string => (or_iff_left id).symm)
      refine .condition ⟨⟨hboundary.front, hboundary.rest⟩, ?_, .inl hlt,
        measure_shorter hlt hescape, ?_⟩ (hall.congr ?_)
      · change state ≠ .ctlE ∧ state ≠ .anyQ
        rcases hafter with rfl | rfl <;> decide
      · exact notMem_append_iff.mpr
          ⟨notMem_append_iff.mpr ⟨hnul.1, hout⟩, hnul.2⟩
      · intro string
        have hnone : ¬ PassReads qregMachine s string :=
          passReads_none (.inr hstate) string
        unfold ReadsHere
        constructor
        · rintro (hread | ⟨_, hread⟩)
          · exact absurd hread hnone
          · exact hread
        · exact fun hread => .inr ⟨hcalls, hread⟩

/-- What holds at the condition of the loop. -/
structure Head.Good (h : Head S) : Prop where
  boundary : h.scanner.OnBoundary
  inLoop : h.scanner.InLoop
  enough : h.scanner.measure < h.fuel
  noNul : 0 ∉ h.re

/-- A run of the loop ends with an error or a result, with the cursor at a
boundary. -/
def Head.Ends (regexEscapeString : Bytes -> Bytes) (qregMachine : SpecMachine S)
    (h : Head S) : Prop :=
  RunEnd (RunReads regexEscapeString qregMachine h)
    (LeavesLoop regexEscapeString qregMachine h) h.scanner h.re
    (pattern2RegexpFrom regexEscapeString qregMachine .utf8 h.fuel h.singleExpr
      h.scanner h.re)

theorem nested_good (hgood : (⟨fuel + 1, singleExpr, s, re⟩ : Head S).Good)
    (hcalls : s.Calls) :
    (⟨fuel, true, { s with state := .start }, []⟩ : Head S).Good where
  boundary := ⟨hgood.boundary.front, hgood.boundary.rest⟩
  inLoop := show SearchState.start ≠ .ctlE ∧ SearchState.start ≠ .anyQ by decide
  enough := by
    have hweight : s.state.weight = 2 := by
      rcases hcalls with ⟨_, _, _, hstate | ⟨hstate, _⟩⟩
      · rw [hstate]
        rfl
      · rw [hstate]
        rfl
    have henough : 2 * s.pattern.length + s.state.weight < fuel + 1 :=
      hgood.enough
    change 2 * s.pattern.length + 1 < fuel
    omega
  noNul := List.not_mem_nil

theorem pass_ends (hescape : EscapesMetacharacters regexEscapeString)
    (ih : forall h : Head S, h.fuel = fuel -> h.Good ->
      NoBadCaret regexEscapeString qregMachine h ->
      h.Ends regexEscapeString qregMachine)
    (hgood : (⟨fuel + 1, singleExpr, s, re⟩ : Head S).Good)
    (hno : NoBadCaret regexEscapeString qregMachine
      ⟨fuel + 1, singleExpr, s, re⟩) :
    PassEnd (ReadsHere regexEscapeString qregMachine fuel s) s re
      (pass regexEscapeString qregMachine .utf8
        (nestedCall regexEscapeString qregMachine fuel) s re) := by
  by_cases hcalls : s.Calls
  · exact call_end hgood.boundary hcalls re (ih ⟨fuel, true, _, []⟩ rfl
      (nested_good hgood hcalls) (hno.follows (.nested hcalls)))
  have hreads : ReadsHere regexEscapeString qregMachine fuel s =
      PassReads qregMachine s := by
    funext string
    exact propext (or_iff_left (fun h => hcalls h.1))
  rw [hreads]
  exact pass_end hescape re hgood.boundary (hno _ .refl) hgood.inLoop hcalls

theorem Progress.good {piece : Bytes} (h : Progress s t piece)
    (hgood : (⟨fuel + 1, singleExpr, s, re⟩ : Head S).Good) :
    (⟨fuel, singleExpr, t, re ++ piece⟩ : Head S).Good where
  boundary := h.boundary
  inLoop := h.inLoop
  enough := Nat.lt_of_lt_of_le h.measure (Nat.le_of_lt_succ hgood.enough)
  noNul := notMem_append_iff.mpr ⟨hgood.noNul, h.noNul⟩

theorem run_end (hescape : EscapesMetacharacters regexEscapeString)
    (fuel : Nat) :
    forall h : Head S, h.fuel = fuel -> h.Good ->
      NoBadCaret regexEscapeString qregMachine h ->
      h.Ends regexEscapeString qregMachine := by
  induction fuel with
  | zero =>
      rintro ⟨fuel, singleExpr, s, re⟩ rfl hgood
      cases hgood.enough
  | succ fuel ih =>
      rintro ⟨_, singleExpr, s, re⟩ rfl hgood hno
      have hend := pass_ends hescape ih hgood hno
      unfold Head.Ends
      dsimp only
      rw [pattern2RegexpFrom_succ]
      generalize hpass : pass regexEscapeString qregMachine .utf8
        (nestedCall regexEscapeString qregMachine fuel) s re = result at hend
      cases hend with
      | error err =>
          refine .error err ?_
          intro hleaves
          cases hleaves with
          | atEnd h => cases hpass.symm.trans h
          | single h => cases hpass.symm.trans h
          | next h => cases hpass.symm.trans h
      | incomplete hboundary hle =>
          refine .incomplete ?_ hboundary hle
          intro hleaves
          cases hleaves with
          | atEnd h => cases hpass.symm.trans h
          | single h => cases hpass.symm.trans h
          | next h => cases hpass.symm.trans h
      | @endOfPattern t hboundary hle halt hreads =>
          have hlast : forall t re', pass regexEscapeString qregMachine .utf8
              (nestedCall regexEscapeString qregMachine fuel) s re ≠
                .ok (.condition t re') := by
            intro t re' heq
            cases hpass.symm.trans heq
          have hvalid (string : Bytes)
              (hread : RunReads regexEscapeString qregMachine
                ⟨fuel + 1, singleExpr, s, re⟩ string) : Valid .utf8 string :=
            hreads string ((runReads_last hlast string).mp hread)
          have hcomplete := complete_end
            (show LeavesLoop regexEscapeString qregMachine
              ⟨fuel + 1, singleExpr, s, re⟩ from .atEnd hpass)
            hboundary hle (.inl rfl) halt hgood.noNul List.not_mem_nil
            (joins_valid (valid_nil _) hvalid)
          rw [List.append_nil] at hcomplete
          exact hcomplete
      | @condition t piece hprogress hjoins =>
          have hreads := @runReads_condition S regexEscapeString qregMachine s
            t fuel singleExpr re (re ++ piece) hpass
          change RunEnd _ _ s re (if singleExpr ∧ t.state = .start then
            complete t (re ++ piece) else
            pattern2RegexpFrom regexEscapeString qregMachine .utf8 fuel
              singleExpr t (re ++ piece))
          by_cases hstop : singleExpr ∧ t.state = .start
          · rw [if_pos hstop]
            have hle : t.pattern.length ≤ s.pattern.length ∧
                (piece = [] ∨ t.pattern.length < s.pattern.length) := by
              rcases hprogress.shorter with hlt | ⟨hpiece, heq, _⟩
              · exact ⟨Nat.le_of_lt hlt, .inr hlt⟩
              · exact ⟨Nat.le_of_eq heq, .inl hpiece⟩
            refine complete_end (.single hpass hstop) hprogress.boundary hle.1
              hle.2 ?_ hgood.noNul hprogress.noNul (hjoins.congr ?_)
            · intro halt
              cases hstop.2.symm.trans halt
            · intro string
              rw [hreads string]
              exact or_iff_left (fun hnext => hnext.1 hstop)
          · rw [if_neg hstop]
            refine (ih ⟨fuel, singleExpr, t, re ++ piece⟩ rfl
              (hprogress.good hgood)
              (hno.follows (.next hpass hstop))).behind hprogress hjoins ?_ ?_
            · intro string
              rw [hreads string]
              exact or_congr_right (and_iff_right hstop)
            · constructor
              · intro hleaves
                cases hleaves with
                | atEnd h => cases hpass.symm.trans h
                | single h hstop' =>
                    cases hpass.symm.trans h
                    exact absurd hstop' hstop
                | next h _ hnext =>
                    cases hpass.symm.trans h
                    exact hnext
              · exact .next hpass hstop

/-! ### Every position -/

theorem follows_good (hescape : EscapesMetacharacters regexEscapeString)
    {h h' : Head S} (hgood : h.Good)
    (hno : NoBadCaret regexEscapeString qregMachine h)
    (hfollows : Follows regexEscapeString qregMachine h h') : h'.Good := by
  cases hfollows with
  | nested hcalls => exact nested_good hgood hcalls
  | @next fuel singleExpr s t re re' hpass hnext =>
      have hend := pass_ends hescape (run_end hescape fuel) hgood hno
      rw [hpass] at hend
      cases hend with
      | condition hprogress _ => exact hprogress.good hgood

theorem passes_good (hescape : EscapesMetacharacters regexEscapeString)
    {h h' : Head S} (hgood : h.Good)
    (hno : NoBadCaret regexEscapeString qregMachine h)
    (hpasses : Passes regexEscapeString qregMachine h h') :
    h'.Good ∧ NoBadCaret regexEscapeString qregMachine h' := by
  induction hpasses with
  | refl => exact ⟨hgood, hno⟩
  | tail _ hfollows ih =>
      exact ⟨follows_good hescape ih.1 ih.2 hfollows, ih.2.follows hfollows⟩

theorem classVisits_boundary {u : Scanner S}
    (hvisits : ClassVisits qregMachine s u) (h : s.OnBoundary) :
    u.OnBoundary := by
  induction hvisits with
  | here => exact h
  | ctlE _ hpattern _ ih =>
      have hadvance := h.advance hpattern (by decide)
      exact ih ⟨hadvance.front, hadvance.rest⟩
  | anyQ _ hpattern hb _ ih =>
      have hadvance := h.advance hpattern (upperKey_ascii hb)
      exact ih ⟨hadvance.front, hadvance.rest⟩
  | more _ hpattern _ _ ih =>
      have hadvance := h.advanceChar hpattern
      exact ih ⟨hadvance.front, hadvance.rest⟩

theorem beforeClass_boundary (h : s.OnBoundary) (hcaret : ¬ s.BadCaret) :
    s.beforeClass.OnBoundary := by
  unfold Scanner.beforeClass
  split
  · exact ⟨h.front, h.rest⟩
  · exact resolveCaret_boundary h hcaret

/-- The cursor stands at boundaries throughout a pass. -/
theorem stands_boundary (hescape : EscapesMetacharacters regexEscapeString)
    {h : Head S} (hgood : h.Good)
    (hno : NoBadCaret regexEscapeString qregMachine h) {u : Scanner S}
    (hstands : Stands regexEscapeString qregMachine h u) : u.OnBoundary := by
  have hcaret := hno _ .refl
  have hbefore := beforeClass_boundary hgood.boundary hcaret
  cases hstands with
  | head => exact hgood.boundary
  | caret => exact resolveCaret_boundary hgood.boundary hcaret
  | inClass hvisits => exact classVisits_boundary hvisits hbefore
  | behindClass hok =>
      rcases classAt_end hescape _ hbefore with ⟨err, herr⟩ | ⟨cls, t, ht, hend⟩
      · cases hok.symm.trans herr
      · cases hok.symm.trans ht
        exact hend.boundary
  | @behind fuel end' hpass hfuel =>
      rcases h with ⟨_, singleExpr, s, re⟩
      cases hfuel
      have hend := pass_ends hescape (run_end hescape fuel) hgood hno
      rw [hpass] at hend
      cases hend with
      | condition hprogress _ => exact hprogress.boundary
      | endOfPattern hboundary _ _ _ => exact hboundary
      | incomplete hboundary _ => exact hboundary

/-- A pass without a recursive call is followed by one other pass. -/
theorem passes_condition {h' : Head S} {re' : Bytes} (hcalls : ¬ s.Calls)
    (hpass : pass regexEscapeString qregMachine .utf8
      (nestedCall regexEscapeString qregMachine fuel) s re =
        .ok (.condition t re'))
    (h : Passes regexEscapeString qregMachine ⟨fuel + 1, singleExpr, s, re⟩ h') :
    h' = ⟨fuel + 1, singleExpr, s, re⟩ ∨
      Passes regexEscapeString qregMachine ⟨fuel, singleExpr, t, re'⟩ h' := by
  rcases Relation.ReflTransGen.cases_head h with rfl | ⟨m, hm, hpasses⟩
  · exact .inl rfl
  · rcases follows_iff.mp hm with ⟨hcalls', _⟩ | ⟨t', re'', hpass', _, rfl⟩
    · exact absurd hcalls' hcalls
    · cases hpass.symm.trans hpass'
      exact .inr hpasses

/-- The pass at the end of the pattern is the last one. -/
theorem passes_last {h' : Head S} {re' : Bytes} (hcalls : ¬ s.Calls)
    (hpass : pass regexEscapeString qregMachine .utf8
      (nestedCall regexEscapeString qregMachine fuel) s re =
        .ok (.endOfPattern t re'))
    (h : Passes regexEscapeString qregMachine ⟨fuel + 1, singleExpr, s, re⟩ h') :
    h' = ⟨fuel + 1, singleExpr, s, re⟩ := by
  rcases Relation.ReflTransGen.cases_head h with rfl | ⟨m, hm, _⟩
  · rfl
  · rcases follows_iff.mp hm with ⟨hcalls', _⟩ | ⟨t', re'', hpass', _⟩
    · exact absurd hcalls' hcalls
    · cases hpass.symm.trans hpass'

theorem firstHead_good {pattern : Bytes} (hvalid : Valid .utf8 pattern) :
    (firstHead qregMachine pattern).Good where
  boundary := ⟨valid_nil _, hvalid⟩
  inLoop := show SearchState.start ≠ .ctlE ∧ SearchState.start ≠ .anyQ by decide
  enough := Nat.lt_succ_self _
  noNul := List.not_mem_nil

/-- Patterns are translated character by character if and only if no caret is
read in front of a character outside of ASCII and, where the translation gets to
its end, the registers that it read contain UTF-8. -/
theorem characterSafe_iff (hescape : EscapesMetacharacters regexEscapeString)
    {pattern : Bytes} (hvalid : Valid .utf8 pattern) :
    CharacterSafe regexEscapeString qregMachine pattern <->
      NoBadCaret regexEscapeString qregMachine (firstHead qregMachine pattern) ∧
      (LeavesLoop regexEscapeString qregMachine
          (firstHead qregMachine pattern) ->
        forall string, RunReads regexEscapeString qregMachine
          (firstHead qregMachine pattern) string -> Valid .utf8 string) := by
  have hgood := @firstHead_good S qregMachine pattern hvalid
  constructor
  · intro hsafe
    have hno : NoBadCaret regexEscapeString qregMachine
        (firstHead qregMachine pattern) := by
      intro h hpasses hcaret
      exact resolveCaret_broken (hsafe.boundaries h _ hpasses .head) hcaret
        (hsafe.boundaries h _ hpasses .caret)
    refine ⟨hno, ?_⟩
    intro hleaves
    have hend := run_end hescape _ _ rfl hgood hno
    have hregex := hsafe.regex
    unfold Head.Ends at hend
    unfold pattern2Regexp at hregex
    dsimp only [firstHead] at hend hleaves
    generalize pattern2RegexpFrom regexEscapeString qregMachine .utf8
      (2 * pattern.length + 2) false _ [] = result at hend hregex
    cases hend with
    | error err hnot => exact absurd hleaves hnot
    | incomplete hnot => exact absurd hleaves hnot
    | @done t out _ _ _ _ _ hjoins =>
        exact ((hjoins []).mp (hregex out rfl)).2
  · rintro ⟨hno, hreads⟩
    have hend := run_end hescape _ _ rfl hgood hno
    unfold Head.Ends at hend
    refine ⟨?_, ?_, ?_⟩
    · intro fault hfault
      unfold pattern2Regexp at hfault
      dsimp only [firstHead] at hend
      generalize pattern2RegexpFrom regexEscapeString qregMachine .utf8
        (2 * pattern.length + 2) false _ [] = result at hend hfault
      cases hend <;> cases hfault
    · intro h u hpasses hstands
      rcases passes_good hescape hgood hno hpasses with ⟨hgood', hno'⟩
      exact stands_boundary hescape hgood' hno' hstands
    · intro re hre
      unfold pattern2Regexp at hre
      dsimp only [firstHead] at hend hreads
      generalize pattern2RegexpFrom regexEscapeString qregMachine .utf8
        (2 * pattern.length + 2) false _ [] = result at hend hre
      cases hend with
      | error err => cases hre
      | incomplete =>
          cases hre
          exact valid_nil _
      | @done t out hleaves _ _ _ _ hjoins =>
          cases hre
          exact (hjoins []).mpr ⟨valid_nil _, hreads hleaves⟩

end Runs

/-! ## Samples -/

/-- The passes for "ä". -/
theorem passes_letter {h : Head Unit}
    (hpasses : Passes documentedEscape (oneLetter [])
      (firstHead (oneLetter []) (utf8 "ä")) h) :
    h.scanner.state = .start ∨ h.scanner.state = .escape := by
  have hcalls {s : Scanner Unit}
      (hstate : s.state = .start ∨ s.state = .escape) : ¬ s.Calls := by
    rintro ⟨_, _, _, h | ⟨h, _⟩⟩
    · rcases hstate with hstate | hstate <;> cases hstate.symm.trans h
    · rcases hstate with hstate | hstate <;> cases hstate.symm.trans h
  rcases passes_condition (hcalls (.inl rfl)) rfl hpasses with rfl | hpasses
  · exact .inl rfl
  rcases passes_condition (hcalls (.inr rfl)) rfl hpasses with rfl | hpasses
  · exact .inr rfl
  · rw [passes_last (hcalls (.inl rfl)) rfl hpasses]
    exact .inl rfl

/-- A pattern without carets and registers. -/
theorem characterSafe_letter :
    CharacterSafe documentedEscape (oneLetter []) (utf8 "ä") := by
  refine (characterSafe_iff documentedEscape_escapes ⟨['ä'], by decide⟩).mpr
    ⟨?_, ?_⟩
  · intro h hpasses hcaret
    rcases passes_letter hpasses with hstate | hstate
    · cases hstate.symm.trans hcaret.1
    · cases hstate.symm.trans hcaret.1
  · rintro _ string ⟨h, _, u, _, _, _, hdone⟩
    cases hdone
    exact valid_nil _

/-- A caret in front of "ä" leaves a byte in the pattern which begins no
character. -/
theorem characterSafe_caret :
    Valid .utf8 (utf8 "^ä") ∧
      ¬ CharacterSafe documentedEscape (oneLetter []) (utf8 "^ä") := by
  constructor
  · exact ⟨['^', 'ä'], by decide⟩
  · intro hsafe
    have hnext : Passes documentedEscape (oneLetter [])
        (firstHead (oneLetter []) (utf8 "^ä"))
        ⟨7, false, ⟨.ctl, utf8 "^", utf8 "ä", ()⟩, []⟩ :=
      .single (.next rfl (by decide))
    have hboundary := (hsafe.boundaries _ _ hnext .caret).rest
    exact not_valid_continuation (by decide) (by decide) _ hboundary

end Pattern
end SciTECO
