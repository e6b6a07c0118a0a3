import Mathlib.Data.List.TakeWhile
import Mathlib.Tactic.Common

/-!
# Search trees

A search tree is walked from a node to its successor over its ancestors.  What
is searched for is a cut: a function that is negative on the elements below,
zero on the element itself and positive on the elements above.
-/

inductive SearchTree (α : Type) where
  | leaf
  | node (left : SearchTree α) (a : α) (right : SearchTree α)

namespace SearchTree

variable {α : Type}

/-- The elements in their order. -/
def toList : SearchTree α -> List α
  | leaf => []
  | node left a right => left.toList ++ a :: right.toList

@[simp] theorem toList_leaf : (leaf : SearchTree α).toList = [] := rfl

@[simp] theorem toList_node (left : SearchTree α) (a : α)
    (right : SearchTree α) :
    (node left a right).toList = left.toList ++ a :: right.toList := rfl

/-!
## Cuts
-/

/-- A list is in the order of a cut, which is zero for at most one element. -/
def Cut (cmp : α -> Int) (l : List α) : Prop :=
  l.Pairwise (fun a b => 0 ≤ cmp a -> 0 < cmp b)

variable {cmp : α -> Int}

theorem Cut.below {front back : List α} {a : α}
    (h : Cut cmp (front ++ a :: back)) (ha : cmp a ≤ 0) :
    forall b, b ∈ front -> cmp b < 0 := by
  intro b hb
  have hpair := (List.pairwise_append.mp h).2.2 b hb a List.mem_cons_self
  exact Int.not_le.mp (fun hle => Int.not_lt.mpr ha (hpair hle))

theorem Cut.above {front back : List α} {a : α}
    (h : Cut cmp (front ++ a :: back)) (ha : 0 ≤ cmp a) :
    forall b, b ∈ back -> 0 < cmp b := by
  intro b hb
  have hback := (List.pairwise_append.mp h).2.1
  exact (List.pairwise_cons.mp hback).1 b hb ha

theorem Cut.left {front back : List α} {a : α}
    (h : Cut cmp (front ++ a :: back)) : Cut cmp front :=
  (List.pairwise_append.mp h).1

theorem Cut.right {front back : List α} {a : α}
    (h : Cut cmp (front ++ a :: back)) : Cut cmp back :=
  (List.pairwise_cons.mp (List.pairwise_append.mp h).2.1).2

/-- The elements which are not below. -/
def fromCut (cmp : α -> Int) (l : List α) : List α :=
  l.dropWhile (fun a => cmp a < 0)

/-- The elements below. -/
def belowCut (cmp : α -> Int) (l : List α) : List α :=
  l.takeWhile (fun a => cmp a < 0)

theorem belowCut_append_fromCut (l : List α) :
    belowCut cmp l ++ fromCut cmp l = l :=
  List.takeWhile_append_dropWhile

theorem fromCut_pass {front : List α} (h : forall b, b ∈ front -> cmp b < 0)
    (back : List α) : fromCut cmp (front ++ back) = fromCut cmp back := by
  unfold fromCut
  rw [List.dropWhile_append_of_pos]
  exact fun b hb => decide_eq_true (h b hb)

theorem belowCut_pass {front : List α} (h : forall b, b ∈ front -> cmp b < 0)
    (back : List α) :
    belowCut cmp (front ++ back) = front ++ belowCut cmp back := by
  unfold belowCut
  rw [List.takeWhile_append_of_pos]
  exact fun b hb => decide_eq_true (h b hb)

theorem fromCut_cons {a : α} (ha : ¬ cmp a < 0) (back : List α) :
    fromCut cmp (a :: back) = a :: back :=
  List.dropWhile_cons_of_neg (fun h => ha (of_decide_eq_true h))

theorem belowCut_cons {a : α} (ha : ¬ cmp a < 0) (back : List α) :
    belowCut cmp (a :: back) = [] :=
  List.takeWhile_cons_of_neg (fun h => ha (of_decide_eq_true h))

theorem fromCut_below {a : α} (ha : cmp a < 0) (back : List α) :
    fromCut cmp (a :: back) = fromCut cmp back :=
  List.dropWhile_cons_of_pos (decide_eq_true ha)

theorem belowCut_below {a : α} (ha : cmp a < 0) (back : List α) :
    belowCut cmp (a :: back) = a :: belowCut cmp back :=
  List.takeWhile_cons_of_pos (decide_eq_true ha)

theorem mem_belowCut {l : List α} {a : α} (h : a ∈ belowCut cmp l) :
    cmp a < 0 := by
  have hp := List.mem_takeWhile_imp h
  exact of_decide_eq_true hp

theorem mem_fromCut {l : List α} {a : α} (hcut : Cut cmp l)
    (h : a ∈ fromCut cmp l) : 0 ≤ cmp a := by
  induction l with
  | nil => cases h
  | cons b l ih =>
      rcases List.pairwise_cons.mp hcut with ⟨hb, hl⟩
      by_cases hlt : cmp b < 0
      · rw [fromCut_below hlt] at h
        exact ih hl h
      · rw [fromCut_cons hlt] at h
        rcases List.mem_cons.mp h with rfl | h
        · exact Int.not_lt.mp hlt
        · exact Int.le_of_lt (hb a h (Int.not_lt.mp hlt))

/-- An element above ends the part below. -/
theorem fromCut_append {front back : List α} {a : α} (ha : ¬ cmp a < 0) :
    fromCut cmp (front ++ a :: back) = fromCut cmp front ++ a :: back := by
  induction front with
  | nil => exact fromCut_cons ha back
  | cons b front ih =>
      by_cases hb : cmp b < 0
      · rw [List.cons_append, fromCut_below hb, fromCut_below hb, ih]
      · rw [List.cons_append, fromCut_cons hb, fromCut_cons hb,
          List.cons_append]

theorem belowCut_append {front back : List α} {a : α} (ha : ¬ cmp a < 0) :
    belowCut cmp (front ++ a :: back) = belowCut cmp front := by
  induction front with
  | nil => exact belowCut_cons ha back
  | cons b front ih =>
      by_cases hb : cmp b < 0
      · rw [List.cons_append, belowCut_below hb, belowCut_below hb, ih]
      · rw [List.cons_append, belowCut_cons hb, belowCut_cons hb]

def find (cmp : α -> Int) : SearchTree α -> Option α
  | leaf => none
  | node left a right =>
      if cmp a = 0 then some a
      else if cmp a < 0 then find cmp right
      else find cmp left

theorem find_some {t : SearchTree α} {a : α} (h : find cmp t = some a) :
    a ∈ t.toList ∧ cmp a = 0 := by
  induction t with
  | leaf => cases h
  | node left b right ihl ihr =>
      unfold find at h
      rw [toList_node]
      split at h
      · next hb =>
          cases h
          exact ⟨List.mem_append_right _ List.mem_cons_self, hb⟩
      · split at h
        · have hright := ihr h
          exact ⟨List.mem_append_right _ (List.mem_cons_of_mem _ hright.1),
            hright.2⟩
        · have hleft := ihl h
          exact ⟨List.mem_append_left _ hleft.1, hleft.2⟩

theorem find_none {t : SearchTree α} (hcut : Cut cmp t.toList)
    (h : find cmp t = none) : forall a, a ∈ t.toList -> cmp a ≠ 0 := by
  induction t with
  | leaf => exact fun a ha => absurd ha List.not_mem_nil
  | node left b right ihl ihr =>
      intro a ha
      rw [toList_node] at hcut ha
      unfold find at h
      split at h
      · cases h
      next hb =>
      split at h
      · next hlt =>
          rcases List.mem_append.mp ha with ha | ha
          · exact Int.ne_of_lt (hcut.below (Int.le_of_lt hlt) a ha)
          · rcases List.mem_cons.mp ha with rfl | ha
            · exact hb
            · exact ihr hcut.right h a ha
      · next hge =>
          rcases List.mem_append.mp ha with ha | ha
          · exact ihl hcut.left h a ha
          · rcases List.mem_cons.mp ha with rfl | ha
            · exact hb
            · exact (Int.ne_of_lt (hcut.above (Int.not_lt.mp hge) a ha)).symm

/-!
## Changes
-/

/-- Link a new node where the search for its element ends. -/
def link (cmp : α -> Int) (x : α) : SearchTree α -> SearchTree α
  | leaf => node leaf x leaf
  | node left a right =>
      if cmp a < 0 then node left a (link cmp x right)
      else node (link cmp x left) a right

theorem toList_link {t : SearchTree α} (hcut : Cut cmp t.toList) (x : α) :
    (link cmp x t).toList =
      belowCut cmp t.toList ++ x :: fromCut cmp t.toList := by
  induction t with
  | leaf => rfl
  | node left a right ihl ihr =>
      rw [toList_node] at hcut ⊢
      unfold link
      split
      · next ha =>
          have hbelow := hcut.below (Int.le_of_lt ha)
          rw [toList_node, ihr hcut.right, belowCut_pass hbelow,
            fromCut_pass hbelow, belowCut_below ha, fromCut_below ha,
            List.append_assoc, List.cons_append]
      · next ha =>
          rw [toList_node, ihl hcut.left, belowCut_append ha,
            fromCut_append ha, List.append_assoc, List.cons_append]

/-- Replace the element that is found. -/
def replace (cmp : α -> Int) (x : α) : SearchTree α -> SearchTree α
  | leaf => leaf
  | node left a right =>
      if cmp a = 0 then node left x right
      else if cmp a < 0 then node left a (replace cmp x right)
      else node (replace cmp x left) a right

theorem map_of_ne {l : List α} {x : α} (h : forall a, a ∈ l -> cmp a ≠ 0) :
    l.map (fun a => if cmp a = 0 then x else a) = l := by
  rw [List.map_congr_left (fun a ha => if_neg (h a ha))]
  exact List.map_id' l

theorem toList_replace {t : SearchTree α} (hcut : Cut cmp t.toList) (x : α) :
    (replace cmp x t).toList =
      t.toList.map (fun a => if cmp a = 0 then x else a) := by
  induction t with
  | leaf => rfl
  | node left a right ihl ihr =>
      rw [toList_node] at hcut ⊢
      rw [List.map_append, List.map_cons]
      have hfront : cmp a ≤ 0 -> left.toList.map
          (fun a => if cmp a = 0 then x else a) = left.toList := fun ha =>
        map_of_ne (fun b hb => Int.ne_of_lt (hcut.below ha b hb))
      have hback : 0 ≤ cmp a -> right.toList.map
          (fun a => if cmp a = 0 then x else a) = right.toList := fun ha =>
        map_of_ne (fun b hb => (Int.ne_of_lt (hcut.above ha b hb)).symm)
      unfold replace
      split
      · next ha =>
          rw [hfront (Int.le_of_eq ha), hback (Int.le_of_eq ha.symm),
            toList_node]
      next ha =>
      split
      · next hlt =>
          rw [hfront (Int.le_of_lt hlt), toList_node, ihr hcut.right]
      · next hge =>
          rw [hback (Int.not_lt.mp hge), toList_node, ihl hcut.left]

/-- A way to balance a tree, which keeps the order of the elements. -/
structure Rebalancing (α : Type) where
  apply : SearchTree α -> SearchTree α
  toList_apply : forall t, (apply t).toList = t.toList

/-- The tree stays as it is. -/
def Rebalancing.none : Rebalancing α where
  apply := id
  toList_apply := fun _ => rfl

/-!
## Successors
-/

/-- An ancestor with its other subtree. -/
inductive Step (α : Type) where
  | left (a : α) (right : SearchTree α)
  | right (left : SearchTree α) (a : α)

/-- A node with its subtrees and ancestors, beginning with its parent. -/
structure Position (α : Type) where
  left : SearchTree α
  val : α
  right : SearchTree α
  path : List (Step α)

/-- The elements behind a subtree. -/
def behind : List (Step α) -> List α
  | [] => []
  | .left a right :: path => a :: (right.toList ++ behind path)
  | .right _ _ :: path => behind path

/-- The elements from a position on. -/
def rest : Option (Position α) -> List α
  | none => []
  | some p => p.val :: (p.right.toList ++ behind p.path)

/-- The first node of a subtree. -/
def leftmost : SearchTree α -> α -> SearchTree α -> List (Step α) -> Position α
  | leaf, a, right, path => ⟨leaf, a, right, path⟩
  | node l b r, a, right, path => leftmost l b r (.left a right :: path)

/-- The first ancestor of which the node is on the left. -/
def climb (t : SearchTree α) : List (Step α) -> Option (Position α)
  | [] => none
  | .left a right :: path => some ⟨t, a, right, path⟩
  | .right left a :: path => climb (node left a t) path

def Position.next (p : Position α) : Option (Position α) :=
  match p.right with
  | leaf => climb (node p.left p.val leaf) p.path
  | node l b r => some (leftmost l b r (.right p.left p.val :: p.path))

theorem rest_leftmost (left : SearchTree α) :
    forall (a : α) (right : SearchTree α) (path : List (Step α)),
      rest (some (leftmost left a right path)) =
        left.toList ++ a :: (right.toList ++ behind path) := by
  induction left with
  | leaf => exact fun _ _ _ => rfl
  | node l b r ihl _ =>
      intro a right path
      rw [leftmost, ihl, toList_node, List.append_assoc]
      rfl

theorem rest_climb (path : List (Step α)) :
    forall t : SearchTree α, rest (climb t path) = behind path := by
  induction path with
  | nil => exact fun _ => rfl
  | cons step path ih =>
      intro t
      cases step with
      | left a right => rfl
      | right left a => exact ih _

/-- The successor of a node begins what is behind it. -/
theorem rest_next (p : Position α) :
    rest (some p) = p.val :: rest p.next := by
  rcases p with ⟨left, a, right, path⟩
  cases right with
  | leaf =>
      have hclimb := rest_climb path (node left a leaf)
      exact congrArg (a :: .) hclimb.symm
  | node l b r =>
      have hfirst := rest_leftmost l b r (.right left a :: path)
      change a :: ((node l b r).toList ++ behind path) = _
      rw [toList_node, List.append_assoc]
      exact congrArg (a :: .) hfirst.symm

/-- The first node that is not below a cut. -/
def lowerBound (cmp : α -> Int) :
    SearchTree α -> List (Step α) -> Option (Position α) ->
      Option (Position α)
  | leaf, _, found => found
  | node left a right, path, found =>
      if cmp a = 0 then some ⟨left, a, right, path⟩
      else if cmp a < 0 then
        lowerBound cmp right (.right left a :: path) found
      else
        lowerBound cmp left (.left a right :: path)
          (some ⟨left, a, right, path⟩)

theorem rest_lowerBound {t : SearchTree α} :
    forall {path : List (Step α)} {found : Option (Position α)},
      Cut cmp t.toList -> rest found = behind path ->
      rest (lowerBound cmp t path found) =
        fromCut cmp t.toList ++ behind path := by
  induction t with
  | leaf =>
      intro path found _ hfound
      exact hfound
  | node left a right ihl ihr =>
      intro path found hcut hfound
      rw [toList_node] at hcut ⊢
      unfold lowerBound
      split
      · next ha =>
          rw [fromCut_pass (hcut.below (Int.le_of_eq ha)),
            fromCut_cons (by rw [ha]; exact Int.lt_irrefl 0), List.cons_append]
          rfl
      next ha =>
      split
      · next hlt =>
          rw [fromCut_pass (hcut.below (Int.le_of_lt hlt)), fromCut_below hlt]
          exact ihr hcut.right hfound
      · next hge =>
          rw [fromCut_append hge, List.append_assoc, List.cons_append]
          exact ihl hcut.left rfl

/-!
## Orders
-/

/-- A comparison function by which all elements can be compared. -/
structure TotalPreorder (order : α -> α -> Int) : Prop where
  swap : forall a b, 0 < order a b <-> order b a < 0
  trans : forall a b c, order a b ≤ 0 -> order b c ≤ 0 -> order a c ≤ 0

theorem TotalPreorder.lt_of_lt_of_le {order : α -> α -> Int}
    (h : TotalPreorder order) {a b c : α} (hab : order a b < 0)
    (hbc : order b c ≤ 0) : order a c < 0 := by
  apply Int.not_le.mp
  intro hac
  have hca : order c a ≤ 0 := by
    apply Int.not_lt.mp
    exact fun hlt => Int.not_le.mpr ((h.swap c a).mp hlt) hac
  have hba := h.trans b c a hbc hca
  exact Int.not_lt.mpr hba ((h.swap b a).mpr hab)

/-- The elements ascend. -/
def Ascending (order : α -> α -> Int) (l : List α) : Prop :=
  l.Pairwise (fun a b => order a b < 0)

theorem Ascending.cut {order : α -> α -> Int} (h : TotalPreorder order)
    {l : List α} (hl : Ascending order l) (x : α) :
    Cut (fun a => order a x) l := by
  refine hl.imp ?_
  intro a b hab ha
  apply Int.not_le.mp
  intro hb
  exact Int.not_lt.mpr ha (h.lt_of_lt_of_le hab hb)

end SearchTree
