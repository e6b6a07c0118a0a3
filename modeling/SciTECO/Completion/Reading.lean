import SciTECO.Completion.AutoComplete
import SciTECO.Lib.CommonPrefix

/-!
# Reading strings in a case mode

A case mode compares strings unit by unit: bytes if case matters, and folded
characters otherwise.  The lengths are in bytes in both modes.
-/

namespace SciTECO
namespace Completion

open CommonPrefix

/-- The units of a string, and the bytes which its first units take. -/
structure Reading (U : Type) where
  units : Bytes -> List U
  width : Bytes -> Nat -> Nat

namespace Reading

variable {U : Type} [DecidableEq U] (r : Reading U)

/-- Every unit has bytes, and all bytes belong to units. -/
structure Readable (a : Bytes) : Prop where
  none : r.width a 0 = 0
  all : r.width a (r.units a).length = a.length
  strict : forall n m, n < m -> m ≤ (r.units a).length ->
    r.width a n < r.width a m

/-- The difference of two strings is where their units differ, and until then
their units have the same lengths. -/
structure Comparable (diff : Bytes -> Bytes -> Nat) (a b : Bytes) : Prop where
  diff_eq : diff a b = r.width b (shared (r.units a) (r.units b))
  aligned : forall n, n ≤ shared (r.units a) (r.units b) ->
    r.width a n = r.width b n

variable {r}

omit [DecidableEq U] in
theorem Readable.mono {a : Bytes} (h : r.Readable a) {n m : Nat}
    (hle : n ≤ m) (hm : m ≤ (r.units a).length) :
    r.width a n ≤ r.width a m := by
  rcases Nat.eq_or_lt_of_le hle with heq | hlt
  · rw [heq]
  · exact Nat.le_of_lt (h.strict n m hlt hm)

omit [DecidableEq U] in
theorem Readable.inj {a : Bytes} (h : r.Readable a) {n m : Nat}
    (hn : n ≤ (r.units a).length) (hm : m ≤ (r.units a).length)
    (heq : r.width a n = r.width a m) : n = m := by
  rcases Nat.lt_trichotomy n m with hlt | hsame | hlt
  · exact absurd heq (Nat.ne_of_lt (h.strict n m hlt hm))
  · exact hsame
  · exact absurd heq.symm (Nat.ne_of_lt (h.strict m n hlt hn))

/-- The bytes of the string with which another one begins. -/
theorem Comparable.width_eq {diff : Bytes -> Bytes -> Nat} {a str : Bytes}
    (h : r.Comparable diff a str) (hstr : r.Readable str)
    (hbegins : r.units str <+: r.units a) :
    r.width a (r.units str).length = str.length := by
  have hshared := shared_of_begins hbegins
  rw [h.aligned _ (Nat.le_of_eq hshared.symm), hstr.all]

omit [DecidableEq U] in
/-- A string is not shorter than its beginning. -/
theorem Readable.length_le {a str : Bytes} (ha : r.Readable a)
    (hbegins : r.units str <+: r.units a)
    (hwidth : r.width a (r.units str).length = str.length) :
    str.length ≤ a.length := by
  rw [<- hwidth, <- ha.all]
  exact ha.mono hbegins.length_le (Nat.le_refl _)

theorem Comparable.length_le {diff : Bytes -> Bytes -> Nat} {a str : Bytes}
    (h : r.Comparable diff a str) (hstr : r.Readable str)
    (ha : r.Readable a) (hbegins : r.units str <+: r.units a) :
    str.length ≤ a.length :=
  ha.length_le hbegins (h.width_eq hstr hbegins)

end Reading

/-!
## Bytes
-/

/-- Case matters. -/
def byteReading : Reading UInt8 :=
  { units := fun a => a
    width := fun a n => min n a.length }

theorem stringDiff_eq (a b : Bytes) : stringDiff a b = shared a b := by
  induction a generalizing b with
  | nil => rfl
  | cons x a ih =>
      cases b with
      | nil => rfl
      | cons y b =>
          unfold stringDiff shared
          rw [ih]

section

variable (toLower : ToLower)

/-- Case does not matter. -/
def foldedReading : Reading Gunichar :=
  { units := fun a => (characters a).map toLower
    width := fun a n => (encoded ((characters a).take n)).length }

/-- Characters which are the same but for their case have sequences of the same
length, as far as two texts are the same. -/
def SameWidths : List Gunichar -> List Gunichar -> Prop
  | x :: a, y :: b =>
      toLower x = toLower y ->
        (unicharToUtf8 x).length = (unicharToUtf8 y).length ∧ SameWidths a b
  | _, _ => True

variable {toLower}

theorem SameWidths.take {a b : List Gunichar} (h : SameWidths toLower a b)
    {n : Nat} (hn : n ≤ shared (a.map toLower) (b.map toLower)) :
    (encoded (a.take n)).length = (encoded (b.take n)).length := by
  induction a generalizing b n with
  | nil =>
      rw [List.map_nil, shared_nil] at hn
      rw [Nat.le_zero.mp hn]
      rfl
  | cons x a ih =>
      cases b with
      | nil =>
          rw [List.map_nil, shared_nil_right] at hn
          rw [Nat.le_zero.mp hn]
          rfl
      | cons y b =>
          cases n with
          | zero => rfl
          | succ n =>
              rw [List.map_cons, List.map_cons] at hn
              by_cases hxy : toLower x = toLower y
              · rw [hxy, shared_cons_self] at hn
                rcases h hxy with ⟨hwidth, hrest⟩
                rw [List.take_succ_cons, List.take_succ_cons, encoded_cons,
                  encoded_cons, List.length_append, List.length_append,
                  hwidth, ih hrest (Nat.le_of_succ_le_succ hn)]
              · rw [shared_cons_ne hxy] at hn
                cases hn

theorem SameWidths.drop {a b : List Gunichar} (h : SameWidths toLower a b)
    {n : Nat} (hn : n ≤ shared (a.map toLower) (b.map toLower)) :
    SameWidths toLower (a.drop n) (b.drop n) := by
  induction a generalizing b n with
  | nil =>
      rw [List.drop_nil]
      trivial
  | cons x a ih =>
      cases b with
      | nil =>
          rw [List.map_nil, shared_nil_right] at hn
          rw [Nat.le_zero.mp hn]
          exact h
      | cons y b =>
          cases n with
          | zero => exact h
          | succ n =>
              rw [List.map_cons, List.map_cons] at hn
              by_cases hxy : toLower x = toLower y
              · rw [hxy, shared_cons_self] at hn
                exact ih (h hxy).2 (Nat.le_of_succ_le_succ hn)
              · rw [shared_cons_ne hxy] at hn
                cases hn

theorem sameWidths_nil (a : List Gunichar) : SameWidths toLower a [] := by
  cases a <;> trivial

/-- What is behind the beginning does not matter. -/
theorem SameWidths.append {a b : List Gunichar} (h : SameWidths toLower a b)
    (hbegins : b.map toLower <+: a.map toLower) (back : List Gunichar) :
    SameWidths toLower (a ++ back) b := by
  induction b generalizing a with
  | nil => exact sameWidths_nil _
  | cons y b ih =>
      cases a with
      | nil => exact absurd (List.prefix_nil.mp hbegins) (by simp)
      | cons x a =>
          intro hxy
          rcases h hxy with ⟨hwidth, hrest⟩
          exact ⟨hwidth, ih hrest (List.cons_prefix_cons.mp hbegins).2⟩

end

/-!
## What is behind the beginning
-/

namespace Reading

variable {U : Type} (r : Reading U)

/-- The bytes up to a unit may be inserted behind the beginning. -/
def Inserts (str a : Bytes) : Prop :=
  forall n, (r.units str).length ≤ n -> n ≤ (r.units a).length ->
    r.units (str ++
      (a.drop str.length).take (r.width a n - str.length)) =
        (r.units a).take n

end Reading

section

variable {toLower : ToLower}

end

end Completion
end SciTECO
