import Mathlib.Data.List.Infix
import Mathlib.Tactic.Common

/-!
# Common prefixes

The longest prefix that several lists have in common is found by comparing the
lists in pairs.
-/

namespace CommonPrefix

variable {α : Type} [DecidableEq α]

/-- The number of elements with which both lists begin. -/
def shared : List α -> List α -> Nat
  | a :: l, b :: m => if a = b then shared l m + 1 else 0
  | _, _ => 0

@[simp] theorem shared_nil (m : List α) : shared [] m = 0 := rfl

@[simp] theorem shared_nil_right (l : List α) : shared l [] = 0 := by
  cases l <;> rfl

theorem shared_cons_self (a : α) (l m : List α) :
    shared (a :: l) (a :: m) = shared l m + 1 := if_pos rfl

theorem shared_cons_ne {a b : α} (h : a ≠ b) (l m : List α) :
    shared (a :: l) (b :: m) = 0 := if_neg h

theorem shared_le_right (l m : List α) : shared l m ≤ m.length := by
  induction l generalizing m with
  | nil => exact Nat.zero_le _
  | cons a l ih =>
      cases m with
      | nil => exact Nat.zero_le _
      | cons b m =>
          by_cases h : a = b
          · rw [h, shared_cons_self]
            exact Nat.succ_le_succ (ih m)
          · rw [shared_cons_ne h]
            exact Nat.zero_le _

/-- A prefix of one list is a prefix of the other one as far as both are the
same. -/
theorem prefix_and_iff {q l m : List α} :
    q <+: l ∧ q <+: m <-> q <+: m ∧ q.length ≤ shared l m := by
  induction q generalizing l m with
  | nil =>
      exact ⟨fun _ => ⟨List.nil_prefix, Nat.zero_le _⟩,
        fun _ => ⟨List.nil_prefix, List.nil_prefix⟩⟩
  | cons c q ih =>
      cases m with
      | nil =>
          constructor
          · exact fun h => absurd (List.prefix_nil.mp h.2) (by simp)
          · exact fun h => absurd (List.prefix_nil.mp h.1) (by simp)
      | cons b m =>
          cases l with
          | nil =>
              constructor
              · exact fun h => absurd (List.prefix_nil.mp h.1) (by simp)
              · exact fun h => absurd h.2 (Nat.not_succ_le_zero _)
          | cons a l =>
              rw [List.cons_prefix_cons, List.cons_prefix_cons]
              by_cases hab : a = b
              · subst hab
                rw [shared_cons_self, List.length_cons,
                  Nat.succ_le_succ_iff]
                have hrest := @ih l m
                constructor
                · rintro ⟨⟨hc, hl⟩, _, hm⟩
                  have hboth := hrest.mp ⟨hl, hm⟩
                  exact ⟨⟨hc, hboth.1⟩, hboth.2⟩
                · rintro ⟨⟨hc, hm⟩, hlen⟩
                  have hboth := hrest.mpr ⟨hm, hlen⟩
                  exact ⟨⟨hc, hboth.1⟩, hc, hboth.2⟩
              · rw [shared_cons_ne hab]
                constructor
                · rintro ⟨⟨hca, _⟩, hcb, _⟩
                  exact absurd (hca.symm.trans hcb) hab
                · exact fun h => absurd h.2 (Nat.not_succ_le_zero _)

theorem shared_of_begins {l m : List α} (h : m <+: l) :
    shared l m = m.length := by
  have hle := (prefix_and_iff.mp ⟨h, List.prefix_refl m⟩).2
  exact Nat.le_antisymm (shared_le_right l m) hle

/-- A list has exactly the prefixes that all of some lists have. -/
def IsCommon (lists : List (List α)) (s : List α) : Prop :=
  forall q, (forall l, l ∈ lists -> q <+: l) <-> q <+: s

omit [DecidableEq α] in
theorem prefix_take_iff {q m : List α} {n : Nat} :
    q <+: m.take n <-> q <+: m ∧ q.length ≤ n := by
  constructor
  · intro h
    have hlen := h.length_le
    rw [List.length_take] at hlen
    exact ⟨h.trans (List.take_prefix n m),
      Nat.le_trans hlen (Nat.min_le_left _ _)⟩
  · rintro ⟨h, hlen⟩
    rw [List.prefix_iff_eq_take] at h ⊢
    rw [List.take_take, Nat.min_eq_left hlen]
    exact h

/-- Another list is compared with the one of which a prefix is common. -/
theorem IsCommon.cons {lists : List (List α)} {first : List α} {n : Nat}
    (h : IsCommon lists (first.take n)) (l : List α) :
    IsCommon (l :: lists) (first.take (min n (shared l first))) := by
  intro q
  rw [prefix_take_iff]
  constructor
  · intro hall
    have hl := hall l List.mem_cons_self
    have hfirst := prefix_take_iff.mp ((h q).mp (fun m hm =>
      hall m (List.mem_cons_of_mem _ hm)))
    have hshared := prefix_and_iff.mp ⟨hl, hfirst.1⟩
    exact ⟨hfirst.1, Nat.le_min.mpr ⟨hfirst.2, hshared.2⟩⟩
  · rintro ⟨hfirst, hlen⟩ m hm
    rcases Nat.le_min.mp hlen with ⟨hn, hshared⟩
    rcases List.mem_cons.mp hm with rfl | hm
    · exact (prefix_and_iff.mpr ⟨hfirst, hshared⟩).1
    · exact (h q).mpr (prefix_take_iff.mpr ⟨hfirst, hn⟩) m hm

/-- Another list takes the place of the one of which a prefix is common. -/
theorem IsCommon.replace {lists : List (List α)} {last : List α} {n : Nat}
    (h : IsCommon lists (last.take n)) (l : List α) :
    IsCommon (l :: lists) (l.take (min n (shared last l))) := by
  intro q
  rw [prefix_take_iff]
  constructor
  · intro hall
    have hl := hall l List.mem_cons_self
    have hlast := prefix_take_iff.mp ((h q).mp (fun m hm =>
      hall m (List.mem_cons_of_mem _ hm)))
    have hshared := prefix_and_iff.mp ⟨hlast.1, hl⟩
    exact ⟨hl, Nat.le_min.mpr ⟨hlast.2, hshared.2⟩⟩
  · rintro ⟨hl, hlen⟩ m hm
    rcases Nat.le_min.mp hlen with ⟨hn, hshared⟩
    rcases List.mem_cons.mp hm with rfl | hm
    · exact hl
    · have hlast := (prefix_and_iff.mpr ⟨hl, hshared⟩).1
      exact (h q).mpr (prefix_take_iff.mpr ⟨hlast, hn⟩) m hm

omit [DecidableEq α] in
theorem IsCommon.of_mem {lists lists' : List (List α)} {s : List α}
    (h : IsCommon lists s) (hmem : forall l, l ∈ lists' <-> l ∈ lists) :
    IsCommon lists' s := by
  intro q
  constructor
  · exact fun hall => (h q).mp (fun l hl => hall l ((hmem l).mpr hl))
  · exact fun hq l hl => (h q).mpr hq l ((hmem l).mp hl)

omit [DecidableEq α] in
/-- All lists are continued in front. -/
theorem IsCommon.append {lists : List (List α)} {s : List α}
    (h : IsCommon lists s) (hne : lists ≠ []) (front : List α) :
    IsCommon (lists.map (fun l => front ++ l)) (front ++ s) := by
  intro q
  constructor
  · intro hall
    have hmap : forall l, l ∈ lists -> q <+: front ++ l := fun l hl =>
      hall _ (List.mem_map.mpr ⟨l, hl, rfl⟩)
    cases hlists : lists with
    | nil => exact absurd hlists hne
    | cons l rest =>
        have hfirst := hmap l (by rw [hlists]; exact List.mem_cons_self)
        rcases Nat.le_total q.length front.length with hle | hle
        · have hfront := List.prefix_of_prefix_length_le hfirst
            (List.prefix_append front l) hle
          exact hfront.trans (List.prefix_append front s)
        · have hfront := List.prefix_of_prefix_length_le
            (List.prefix_append front l) hfirst hle
          rcases hfront with ⟨back, rfl⟩
          apply (List.prefix_append_right_inj front).mpr
          apply (h back).mp
          intro m hm
          exact (List.prefix_append_right_inj front).mp (hmap m hm)
  · intro hq m hm
    rcases List.mem_map.mp hm with ⟨l, hl, rfl⟩
    have hs := (h s).mpr (List.prefix_refl s) l hl
    exact hq.trans ((List.prefix_append_right_inj front).mpr hs)

end CommonPrefix
