import SciTECO.Lib.SearchTree

/-!
# Binary search

A list is searched in halves for the element at which a cut is zero.  Both ends
of the interval belong to it, so that an empty one has its ends crossed.
-/

namespace BinarySearch

variable {α : Type}

/-- How a search ends. -/
inductive Result (α : Type) where
  | found (a : α)
  | absent
  | outOfBounds
  | outOfFuel
deriving DecidableEq, Repr

/-- The element at an index, which may be negative. -/
def elementAt (l : List α) (i : Int) : Option α :=
  if 0 ≤ i then l[i.toNat]? else none

def search (cmp : α -> Int) (l : List α) : Nat -> Int -> Int -> Result α
  | 0, _, _ => .outOfFuel
  | fuel + 1, left, right =>
      if left ≤ right then
        let cur := left + (right - left) / 2
        match elementAt l cur with
        | none => .outOfBounds
        | some a =>
            if cmp a = 0 then .found a
            else if 0 < cmp a then search cmp l fuel left (cur - 1)
            else search cmp l fuel (cur + 1) right
      else .absent

variable {cmp : α -> Int} {l : List α}

theorem elementAt_some {i : Int} {a : α} (h : elementAt l i = some a) :
    exists n : Nat, i = n ∧ l[n]? = some a := by
  unfold elementAt at h
  split at h
  · next hle => exact ⟨i.toNat, (Int.toNat_of_nonneg hle).symm, h⟩
  · cases h

theorem elementAt_of_lt {i : Int} (h : 0 ≤ i) (hlt : i < l.length) :
    exists a, elementAt l i = some a := by
  have hnat : i.toNat < l.length := by omega
  unfold elementAt
  rw [if_pos h]
  exact ⟨l[i.toNat], List.getElem?_eq_getElem hnat⟩

/-- Elements behind one that is not below are above. -/
theorem above_of_cut (h : SearchTree.Cut cmp l) {i j : Nat} {a b : α}
    (ha : l[i]? = some a) (hb : l[j]? = some b) (hij : i < j)
    (hle : 0 ≤ cmp a) : 0 < cmp b := by
  rcases List.getElem?_eq_some_iff.mp ha with ⟨hi, rfl⟩
  rcases List.getElem?_eq_some_iff.mp hb with ⟨hj, rfl⟩
  exact List.pairwise_iff_getElem.mp h i j hi hj hij hle

/-- What is searched for is in the interval, which is in the list. -/
structure Inside (cmp : α -> Int) (l : List α) (left right : Int) : Prop where
  start : 0 ≤ left
  stop : right < l.length
  crossed : left ≤ right + 1
  zero : forall (i : Nat) a, l[i]? = some a -> cmp a = 0 ->
    left ≤ i ∧ i ≤ right

theorem inside_all : Inside cmp l 0 (l.length - 1) := by
  refine ⟨Int.le_refl 0, by omega, by omega, ?_⟩
  intro i a ha _
  have hi := (List.getElem?_eq_some_iff.mp ha).1
  omega

/-- The half in front. -/
theorem Inside.front {left right : Int} (h : Inside cmp l left right)
    (hcut : SearchTree.Cut cmp l) {cur : Nat} {a : α}
    (ha : l[cur]? = some a) (hpos : 0 < cmp a) (hle : left ≤ cur) :
    Inside cmp l left (cur - 1) := by
  have hcur := (List.getElem?_eq_some_iff.mp ha).1
  refine ⟨h.start, by omega, by omega, ?_⟩
  intro i b hb hzero
  have hbounds := h.zero i b hb hzero
  have hlt : i < cur := by
    apply Nat.lt_of_not_le
    intro hge
    rcases Nat.eq_or_lt_of_le hge with heq | hlt
    · rw [heq, hb] at ha
      cases ha
      omega
    · have habove := above_of_cut hcut ha hb hlt (Int.le_of_lt hpos)
      omega
  omega

/-- The half behind. -/
theorem Inside.back {left right : Int} (h : Inside cmp l left right)
    (hcut : SearchTree.Cut cmp l) {cur : Nat} {a : α}
    (ha : l[cur]? = some a) (hneg : cmp a < 0) (hle : (cur : Int) ≤ right) :
    Inside cmp l (cur + 1) right := by
  have hleft := h.start
  refine ⟨by omega, h.stop, by omega, ?_⟩
  intro i b hb hzero
  have hbounds := h.zero i b hb hzero
  have hlt : cur < i := by
    apply Nat.lt_of_not_le
    intro hge
    rcases Nat.eq_or_lt_of_le hge with heq | hlt
    · rw [<- heq, hb] at ha
      cases ha
      omega
    · have habove := above_of_cut hcut hb ha hlt (Int.le_of_eq hzero.symm)
      omega
  omega

/-- A search in an interval with enough fuel. -/
theorem search_inside (hcut : SearchTree.Cut cmp l) {fuel : Nat} :
    forall {left right : Int}, Inside cmp l left right ->
      right + 1 - left < fuel ->
      (exists a, a ∈ l ∧ cmp a = 0 ∧
        search cmp l fuel left right = .found a) ∨
      ((forall a, a ∈ l -> cmp a ≠ 0) ∧
        search cmp l fuel left right = .absent) := by
  induction fuel with
  | zero =>
      intro left right h hfuel
      have hcrossed := h.crossed
      omega
  | succ fuel ih =>
      intro left right h hfuel
      have hleft := h.start
      have hright := h.stop
      rw [search]
      by_cases hle : left ≤ right
      · rcases @elementAt_of_lt α l (left + (right - left) / 2) (by omega)
          (by omega) with ⟨a, ha⟩
        rcases elementAt_some ha with ⟨cur, hcur, hget⟩
        rw [if_pos hle]
        dsimp only
        rw [ha]
        dsimp only
        rw [hcur]
        by_cases hzero : cmp a = 0
        · rw [if_pos hzero]
          exact Or.inl ⟨a, List.mem_of_getElem? hget, hzero, rfl⟩
        · rw [if_neg hzero]
          by_cases hpos : 0 < cmp a
          · rw [if_pos hpos]
            exact ih (h.front hcut hget hpos (by omega)) (by omega)
          · rw [if_neg hpos]
            exact ih (h.back hcut hget (by omega) (by omega)) (by omega)
      · rw [if_neg hle]
        refine Or.inr ⟨?_, rfl⟩
        intro a ha hzero
        rcases List.mem_iff_getElem?.mp ha with ⟨i, hi⟩
        have hbounds := h.zero i a hi hzero
        omega

/-- The element is found wherever it is, and never looked for outside. -/
theorem search_cut (hcut : SearchTree.Cut cmp l) {fuel : Nat}
    (hfuel : l.length < fuel) :
    (forall a, a ∈ l -> cmp a = 0 ->
      search cmp l fuel 0 (l.length - 1) = .found a) ∧
    ((forall a, a ∈ l -> cmp a ≠ 0) ->
      search cmp l fuel 0 (l.length - 1) = .absent) := by
  have hresult := search_inside hcut (@inside_all α cmp l)
    (show (l.length : Int) - 1 + 1 - 0 < fuel by omega)
  constructor
  · intro a ha hzero
    rcases hresult with ⟨b, hb, hbzero, hfound⟩ | ⟨hnone, _⟩
    · rw [hfound]
      rcases List.mem_iff_getElem?.mp ha with ⟨i, hi⟩
      rcases List.mem_iff_getElem?.mp hb with ⟨j, hj⟩
      rcases Nat.lt_trichotomy i j with hlt | heq | hlt
      · have habove := above_of_cut hcut hi hj hlt (Int.le_of_eq hzero.symm)
        omega
      · rw [heq, hj] at hi
        exact congrArg Result.found (Option.some.inj hi)
      · have habove := above_of_cut hcut hj hi hlt (Int.le_of_eq hbzero.symm)
        omega
    · exact absurd hzero (hnone a ha)
  · intro hall
    rcases hresult with ⟨b, hb, hbzero, _⟩ | ⟨_, habsent⟩
    · exact absurd hbzero (hall b hb)
    · exact habsent

end BinarySearch
