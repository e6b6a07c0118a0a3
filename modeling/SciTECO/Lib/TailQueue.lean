import Mathlib.Data.List.Nodup
import Mathlib.Logic.Function.Basic
import Mathlib.Tactic.Common

/-!
# Tail queues

A doubly linked list whose links are part of its elements.  The head of the
queue is a node like its entries: the first entry is behind it, and the last
entry is in front of it.  Only the pointer from the last entry to the head is
null.

The nodes are blocks of memory.  An operation has no result if it uses a block
that has been freed, or if it follows a null pointer.
-/

namespace TailQueue

/-- The head of a queue or an entry. -/
inductive Node (α : Type) where
  | head
  | entry (a : α)
deriving DecidableEq, Repr

/-- The links of a node.  `next` is null behind the last entry, and `prev` is
null in an entry that has never been inserted. -/
structure Cell (α : Type) where
  next : Option α
  prev : Option (Node α)
deriving DecidableEq, Repr

/-- The cells of all nodes.  There is none in freed memory. -/
abbrev Heap (α : Type) : Type := Node α -> Option (Cell α)

variable {α : Type}

/-- The pointer by which a node is reached from the one in front of it. -/
def Node.pointer : Node α -> Option α
  | .head => none
  | .entry a => some a

/-!
## Operations
-/

section Operations

variable [DecidableEq α]

/-- A queue without entries. -/
def empty : Heap α :=
  Function.update (fun _ => none) .head
    (some { next := none, prev := some .head })

def nextOf (n : Node α) (q : Heap α) : Option (Option α) := do
  let cell <- q n
  some cell.next

def prevOf (n : Node α) (q : Heap α) : Option (Node α) := do
  let cell <- q n
  cell.prev

def setNext (n : Node α) (next : Option α) (q : Heap α) : Option (Heap α) := do
  let cell <- q n
  some (Function.update q n (some { cell with next := next }))

def setPrev (n prev : Node α) (q : Heap α) : Option (Heap α) := do
  let cell <- q n
  some (Function.update q n (some { cell with prev := some prev }))

/-- Insert the entry `b` in front of the entry `a`. -/
def insertBefore (a b : α) (q : Heap α) : Option (Heap α) := do
  let prev <- prevOf (.entry a) q
  let q <- setPrev (.entry b) prev q
  let q <- setNext (.entry b) (some a) q
  let prev <- prevOf (.entry a) q
  let q <- setNext prev (some b) q
  setPrev (.entry a) (.entry b) q

def insertTail (b : α) (q : Heap α) : Option (Heap α) := do
  let q <- setNext (.entry b) none q
  let last <- prevOf .head q
  let q <- setPrev (.entry b) last q
  let last <- prevOf .head q
  let q <- setNext last (some b) q
  setPrev .head (.entry b) q

/-- Set what is in front of the next entry, or else of the head. -/
def setPrevBehind (next : Option α) (prev : Node α) (q : Heap α) :
    Option (Heap α) :=
  match next with
  | some a => setPrev (.entry a) prev q
  | none => setPrev .head prev q

/-- Remove an entry, which keeps its own links. -/
def remove (e : α) (q : Heap α) : Option (Heap α) := do
  let next <- nextOf (.entry e) q
  let prev <- prevOf (.entry e) q
  let q <- setPrevBehind next prev q
  let prev <- prevOf (.entry e) q
  let next <- nextOf (.entry e) q
  setNext prev next q

/-- Get memory for an entry. -/
def alloc (b : α) (q : Heap α) : Heap α :=
  Function.update q (.entry b) (some { next := none, prev := none })

def free (b : α) (q : Heap α) : Heap α :=
  Function.update q (.entry b) none

/-- The entry in front of a node.  It is found behind the node which is two
places in front, and it is null if the head is in front. -/
def entryBefore (n : Node α) (q : Heap α) : Option (Option α) := do
  let prev <- prevOf n q
  let prev <- prevOf prev q
  nextOf prev q

/-- The first entry from `cur` on that is accepted, with its index.  The search
has no result if it takes more than `fuel` steps. -/
def search (accept : Nat -> α -> Option Bool) (q : Heap α) :
    Nat -> Nat -> Option α -> Option (Option (Nat × α))
  | _, _, none => some none
  | 0, _, some _ => none
  | fuel + 1, i, some a => do
      let found <- accept i a
      if found then
        some (some (i, a))
      else do
        let next <- nextOf (.entry a) q
        search accept q fuel (i + 1) next

end Operations

/-!
## The list of entries
-/

/-- A node and the one behind it. -/
def Link (q : Heap α) (n m : Node α) : Prop :=
  nextOf n q = some m.pointer ∧ prevOf m q = some n

/-- Every node is linked with the one behind it. -/
def Linked (q : Heap α) : List (Node α) -> Prop
  | n :: m :: rest => Link q n m ∧ Linked q (m :: rest)
  | _ => True

/-- The nodes from the head to the end of the list. -/
def front (l : List α) : List (Node α) := .head :: l.map .entry

/-- The nodes from the beginning of the list to the head. -/
def back (l : List α) : List (Node α) := l.map .entry ++ [.head]

/-- The last node of `front l`. -/
def lastNode (l : List α) : Node α := l.getLast?.elim .head .entry

/-- The first node of `back l`. -/
def firstNode (l : List α) : Node α := l.head?.elim .head .entry

/-- The heap has a queue with these entries. -/
structure Represents (q : Heap α) (l : List α) : Prop where
  nodup : l.Nodup
  linked : Linked q (front l ++ [.head])

section Lists

variable {q q' : Heap α} {l r : List α} {e : α}

theorem front_eq (l : List α) :
    exists before, front l = before ++ [lastNode l] := by
  rcases List.eq_nil_or_concat l with rfl | ⟨l, a, rfl⟩
  · exact ⟨[], rfl⟩
  · refine ⟨front l, ?_⟩
    simp [front, lastNode]

theorem back_eq (l : List α) :
    exists after, back l = firstNode l :: after := by
  cases l with
  | nil => exact ⟨[], rfl⟩
  | cons a l => exact ⟨back l, rfl⟩

theorem pointer_firstNode (l : List α) : (firstNode l).pointer = l.head? := by
  cases l <;> rfl

theorem front_append (l r : List α) :
    front (l ++ r) ++ [.head] = front l ++ back r := by
  simp [front, back]

theorem mem_front {n : Node α} :
    n ∈ front l <-> n = .head ∨ exists a, a ∈ l ∧ n = .entry a := by
  simp [front, eq_comm]

theorem mem_back {n : Node α} :
    n ∈ back l <-> n = .head ∨ exists a, a ∈ l ∧ n = .entry a := by
  simp [back, eq_comm, or_comm]

theorem lastNode_mem (l : List α) : lastNode l ∈ front l := by
  rcases front_eq l with ⟨before, hfront⟩
  rw [hfront]
  exact List.mem_append_right _ (List.mem_singleton_self _)

theorem firstNode_mem (l : List α) : firstNode l ∈ back l := by
  rcases back_eq l with ⟨after, hback⟩
  rw [hback]
  exact List.mem_cons_self

theorem nodup_front (h : l.Nodup) : (front l).Nodup := by
  unfold front
  rw [List.nodup_cons]
  constructor
  · simp
  · exact h.map (fun a b hab => by injection hab)

theorem nodup_back (h : l.Nodup) : (back l).Nodup := by
  have hperm : (back l).Perm (front l) := by
    unfold back front
    exact List.perm_append_comm
  exact hperm.nodup_iff.mpr (nodup_front h)

theorem linked_append (before after : List (Node α)) (n m : Node α) :
    Linked q ((before ++ [n]) ++ m :: after) <->
      Linked q (before ++ [n]) ∧ Link q n m ∧ Linked q (m :: after) := by
  induction before with
  | nil => simp [Linked]
  | cons a before ih =>
      cases before with
      | nil => simp [Linked]
      | cons b before =>
          have hleft : Linked q ((a :: b :: before ++ [n]) ++ m :: after) <->
              Link q a b ∧ Linked q ((b :: before ++ [n]) ++ m :: after) :=
            Iff.rfl
          have hright : Linked q (a :: b :: before ++ [n]) <->
              Link q a b ∧ Linked q (b :: before ++ [n]) := Iff.rfl
          rw [hleft, hright, ih, and_assoc]

/-- A list is linked if both parts are and the seam is. -/
theorem linked_front_back (l r : List α) :
    Linked q (front l ++ back r) <->
      Linked q (front l) ∧ Link q (lastNode l) (firstNode r) ∧
        Linked q (back r) := by
  rcases front_eq l with ⟨before, hfront⟩
  rcases back_eq r with ⟨after, hback⟩
  rw [hfront, hback, linked_append]

theorem linked_back_cons (e : α) (r : List α) :
    Linked q (back (e :: r)) <->
      Link q (.entry e) (firstNode r) ∧ Linked q (back r) := by
  rcases back_eq r with ⟨after, hback⟩
  have hcons : back (e :: r) = .entry e :: back r := rfl
  rw [hcons, hback]
  rfl

/-- Only the links between the nodes of the list are read. -/
theorem Linked.congr {nodes : List (Node α)} (h : Linked q nodes)
    (hnext : forall n, n ∈ nodes.dropLast -> nextOf n q' = nextOf n q)
    (hprev : forall n, n ∈ nodes.tail -> prevOf n q' = prevOf n q) :
    Linked q' nodes := by
  induction nodes with
  | nil => trivial
  | cons n nodes ih =>
      cases nodes with
      | nil => trivial
      | cons m rest =>
          rcases h with ⟨⟨hn, hm⟩, hrest⟩
          refine ⟨⟨?_, ?_⟩, ih hrest ?_ ?_⟩
          · rw [hnext n (by simp), hn]
          · rw [hprev m (by simp), hm]
          · intro k hk
            exact hnext k (by
              rw [List.dropLast_cons_cons]
              exact List.mem_cons_of_mem _ hk)
          · intro k hk
            exact hprev k (List.mem_cons_of_mem _ hk)

theorem Linked.front_congr (h : Linked q (front l)) (hl : l.Nodup)
    (hnext : forall n, n ∈ front l -> n ≠ lastNode l ->
      nextOf n q' = nextOf n q)
    (hprev : forall a, a ∈ l -> prevOf (.entry a) q' = prevOf (.entry a) q) :
    Linked q' (front l) := by
  refine h.congr ?_ ?_
  · intro n hn
    refine hnext n (List.dropLast_subset _ hn) ?_
    rcases front_eq l with ⟨before, hfront⟩
    have hnodup := nodup_front hl
    rw [hfront] at hn hnodup
    rw [List.dropLast_concat] at hn
    intro hlast
    rw [hlast] at hn
    exact (List.nodup_append.mp hnodup).2.2 _ hn _
      (List.mem_singleton_self _) rfl
  · intro n hn
    rcases List.mem_map.mp hn with ⟨a, ha, rfl⟩
    exact hprev a ha

theorem Linked.back_congr (h : Linked q (back l)) (hl : l.Nodup)
    (hnext : forall a, a ∈ l -> nextOf (.entry a) q' = nextOf (.entry a) q)
    (hprev : forall n, n ∈ back l -> n ≠ firstNode l ->
      prevOf n q' = prevOf n q) :
    Linked q' (back l) := by
  refine h.congr ?_ ?_
  · intro n hn
    have hmap : n ∈ l.map Node.entry := by
      unfold back at hn
      rw [List.dropLast_concat] at hn
      exact hn
    rcases List.mem_map.mp hmap with ⟨a, ha, rfl⟩
    exact hnext a ha
  · intro n hn
    refine hprev n (List.mem_of_mem_tail hn) ?_
    rcases back_eq l with ⟨after, hback⟩
    have hnodup := nodup_back hl
    rw [hback] at hn hnodup
    intro hfirst
    rw [hfirst] at hn
    exact (List.nodup_cons.mp hnodup).1 hn

end Lists

/-!
## Cells
-/

section Cells

variable {q q' : Heap α}

theorem isSome_of_nextOf {n : Node α} {next : Option α}
    (h : nextOf n q = some next) : (q n).isSome := by
  unfold nextOf at h
  cases hcell : q n with
  | none =>
      rw [hcell] at h
      cases h
  | some cell => rfl

theorem isSome_of_prevOf {n prev : Node α} (h : prevOf n q = some prev) :
    (q n).isSome := by
  unfold prevOf at h
  cases hcell : q n with
  | none =>
      rw [hcell] at h
      cases h
  | some cell => rfl

theorem nextOf_congr {n : Node α} (h : q' n = q n) :
    nextOf n q' = nextOf n q := by
  unfold nextOf
  rw [h]

theorem prevOf_congr {n : Node α} (h : q' n = q n) :
    prevOf n q' = prevOf n q := by
  unfold prevOf
  rw [h]

variable [DecidableEq α]

theorem setNext_spec {n : Node α} (h : (q n).isSome) (next : Option α) :
    exists q', setNext n next q = some q' ∧
      (forall m, nextOf m q' = if m = n then some next else nextOf m q) ∧
      (forall m, prevOf m q' = prevOf m q) ∧
      (forall m, m ≠ n -> q' m = q m) ∧
      forall m, (q' m).isSome = (q m).isSome := by
  rcases Option.isSome_iff_exists.mp h with ⟨cell, hcell⟩
  refine ⟨_, by unfold setNext; rw [hcell]; rfl, ?_, ?_, ?_, ?_⟩
  · intro m
    unfold nextOf
    split
    case isTrue hm => simp [hm]
    case isFalse hm => rw [Function.update_of_ne hm]
  · intro m
    unfold prevOf
    by_cases hm : m = n
    · simp [hm, hcell]
    · rw [Function.update_of_ne hm]
  · intro m hm
    exact Function.update_of_ne hm _ _
  · intro m
    by_cases hm : m = n
    · simp [hm, hcell]
    · rw [Function.update_of_ne hm]

theorem setPrev_spec {n : Node α} (h : (q n).isSome) (prev : Node α) :
    exists q', setPrev n prev q = some q' ∧
      (forall m, nextOf m q' = nextOf m q) ∧
      (forall m, prevOf m q' = if m = n then some prev else prevOf m q) ∧
      (forall m, m ≠ n -> q' m = q m) ∧
      forall m, (q' m).isSome = (q m).isSome := by
  rcases Option.isSome_iff_exists.mp h with ⟨cell, hcell⟩
  refine ⟨_, by unfold setPrev; rw [hcell]; rfl, ?_, ?_, ?_, ?_⟩
  · intro m
    unfold nextOf
    by_cases hm : m = n
    · simp [hm, hcell]
    · rw [Function.update_of_ne hm]
  · intro m
    unfold prevOf
    split
    case isTrue hm => simp [hm]
    case isFalse hm => rw [Function.update_of_ne hm]
  · intro m hm
    exact Function.update_of_ne hm _ _
  · intro m
    by_cases hm : m = n
    · simp [hm, hcell]
    · rw [Function.update_of_ne hm]

end Cells

/-!
## Queues and lists
-/

section Represents

variable {q q' : Heap α} {l r : List α} {a b e : α}

theorem Represents.split (h : Represents q (l ++ r)) :
    Linked q (front l) ∧ Link q (lastNode l) (firstNode r) ∧
      Linked q (back r) := by
  have hlinked := h.linked
  rw [front_append] at hlinked
  exact (linked_front_back l r).mp hlinked

theorem Represents.join (hnodup : (l ++ r).Nodup) (hl : Linked q (front l))
    (hseam : Link q (lastNode l) (firstNode r)) (hr : Linked q (back r)) :
    Represents q (l ++ r) := by
  refine ⟨hnodup, ?_⟩
  rw [front_append]
  exact (linked_front_back l r).mpr ⟨hl, hseam, hr⟩

/-- An entry with what is in front of it and behind it. -/
theorem Represents.around (h : Represents q (l ++ e :: r)) :
    Linked q (front l) ∧ Link q (lastNode l) (.entry e) ∧
      Link q (.entry e) (firstNode r) ∧ Linked q (back r) := by
  rcases h.split with ⟨hl, hseam, hr⟩
  exact ⟨hl, hseam, (linked_back_cons e r).mp hr⟩

theorem Represents.nextOf_entry (h : Represents q (l ++ e :: r)) :
    nextOf (.entry e) q = some r.head? := by
  rw [<- pointer_firstNode]
  exact h.around.2.2.1.1

theorem Represents.nextOf_head (h : Represents q l) :
    nextOf .head q = some l.head? := by
  have hsplit := Represents.split (l := []) h
  rw [<- pointer_firstNode]
  exact hsplit.2.1.1

theorem pointer_lastNode (l : List α) : (lastNode l).pointer = l.getLast? := by
  unfold lastNode
  cases l.getLast? <;> rfl

/-- The node behind the one in front of a node is the node itself. -/
theorem Represents.next_prev (h : Represents q (l ++ r)) :
    exists prev, prevOf (lastNode l) q = some prev ∧
      nextOf prev q = some l.getLast? := by
  rw [<- pointer_lastNode]
  rcases List.eq_nil_or_concat l with rfl | ⟨l, a, rfl⟩
  · have hend : Represents q (r ++ []) := by
      rw [List.append_nil]
      exact h
    exact ⟨_, hend.split.2.1.2, hend.split.2.1.1⟩
  · have hentry : Represents q (l ++ a :: r) := by
      rw [List.concat_eq_append, List.append_assoc] at h
      exact h
    have hlast : lastNode (l.concat a) = .entry a := by
      simp [lastNode]
    rw [hlast]
    exact ⟨_, hentry.around.2.1.2, hentry.around.2.1.1⟩

theorem Represents.entryBefore_of (h : Represents q (l ++ r)) {n : Node α}
    (hprev : prevOf n q = some (lastNode l)) :
    entryBefore n q = some l.getLast? := by
  rcases h.next_prev with ⟨prev, hp, hn⟩
  unfold entryBefore
  rw [hprev]
  change (prevOf (lastNode l) q).bind (fun prev => nextOf prev q) = _
  rw [hp]
  exact hn

theorem Represents.isSome_entry (h : Represents q l) (ha : a ∈ l) :
    (q (.entry a)).isSome := by
  rcases List.append_of_mem ha with ⟨l, r, rfl⟩
  exact isSome_of_nextOf h.nextOf_entry

theorem Represents.isSome_head (h : Represents q l) :
    (q .head).isSome := isSome_of_nextOf h.nextOf_head

/-- The links of other entries do not matter. -/
theorem Represents.congr (h : Represents q l)
    (hcell : forall n, n ∈ front l -> q' n = q n) : Represents q' l := by
  refine ⟨h.nodup, h.linked.congr ?_ ?_⟩
  · intro n hn
    rw [List.dropLast_concat] at hn
    exact nextOf_congr (hcell n hn)
  · intro n hn
    refine prevOf_congr (hcell n ?_)
    have hback : n ∈ back l := hn
    exact mem_front.mpr (mem_back.mp hback)

/-- The end of the first part is no end of a link of the second one. -/
theorem lastNode_not_back (h : (l ++ r).Nodup) {a : α} (ha : a ∈ r) :
    lastNode l ≠ .entry a := by
  intro heq
  rcases mem_front.mp (lastNode_mem l) with hhead | ⟨b, hb, hentry⟩
  · rw [heq] at hhead
    cases hhead
  · rw [heq] at hentry
    injection hentry with hab
    rw [hab] at ha
    exact (List.nodup_append.mp h).2.2 b hb b ha rfl

theorem firstNode_not_front (h : (l ++ r).Nodup) {a : α} (ha : a ∈ l) :
    firstNode r ≠ .entry a := by
  intro heq
  rcases mem_back.mp (firstNode_mem r) with hhead | ⟨b, hb, hentry⟩
  · rw [heq] at hhead
    cases hhead
  · rw [heq] at hentry
    injection hentry with hab
    rw [hab] at ha
    exact (List.nodup_append.mp h).2.2 b ha b hb rfl

theorem lastNode_ne (h : e ∉ l) : lastNode l ≠ .entry e := by
  intro heq
  rcases mem_front.mp (lastNode_mem l) with hhead | ⟨b, hb, hentry⟩
  · rw [heq] at hhead
    cases hhead
  · rw [heq] at hentry
    injection hentry with hab
    exact h (hab ▸ hb)

theorem firstNode_ne (h : e ∉ r) : firstNode r ≠ .entry e := by
  intro heq
  rcases mem_back.mp (firstNode_mem r) with hhead | ⟨b, hb, hentry⟩
  · rw [heq] at hhead
    cases hhead
  · rw [heq] at hentry
    injection hentry with hab
    exact h (hab ▸ hb)

/-- The two parts of a list after the links at the seam have changed. -/
theorem Represents.reseam (hnodup : (l ++ r).Nodup) (hl : Linked q (front l))
    (hr : Linked q (back r))
    (hnext : forall n, n ≠ lastNode l -> n ∈ front (l ++ r) ->
      nextOf n q' = nextOf n q)
    (hprev : forall n, n ≠ firstNode r -> n ∈ front (l ++ r) ->
      prevOf n q' = prevOf n q) :
    Linked q' (front l) ∧ Linked q' (back r) := by
  have hparts := List.nodup_append.mp hnodup
  have hleft : forall a, a ∈ l -> Node.entry a ∈ front (l ++ r) := by
    intro a ha
    exact mem_front.mpr (Or.inr ⟨a, List.mem_append_left _ ha, rfl⟩)
  have hright : forall a, a ∈ r -> Node.entry a ∈ front (l ++ r) := by
    intro a ha
    exact mem_front.mpr (Or.inr ⟨a, List.mem_append_right _ ha, rfl⟩)
  have hhead : Node.head ∈ front (l ++ r) := mem_front.mpr (Or.inl rfl)
  constructor
  · refine hl.front_congr hparts.1 ?_ ?_
    · intro n hn hlast
      refine hnext n hlast ?_
      rcases mem_front.mp hn with rfl | ⟨a, ha, rfl⟩
      · exact hhead
      · exact hleft a ha
    · intro a ha
      exact hprev _ (firstNode_not_front hnodup ha).symm (hleft a ha)
  · refine hr.back_congr hparts.2.1 ?_ ?_
    · intro a ha
      exact hnext _ (lastNode_not_back hnodup ha).symm (hright a ha)
    · intro n hn hfirst
      refine hprev n hfirst ?_
      rcases mem_back.mp hn with rfl | ⟨a, ha, rfl⟩
      · exact hhead
      · exact hright a ha

variable [DecidableEq α]

/-- An operation on a queue leaves the memory of other entries alone. -/
structure Touches (q q' : Heap α) (l : List α) : Prop where
  other : forall a, a ∉ l -> q' (.entry a) = q (.entry a)
  isSome : forall n, (q' n).isSome = (q n).isSome

/-- An entry that is removed keeps its links. -/
theorem remove_spec (h : Represents q (l ++ e :: r)) :
    exists q', remove e q = some q' ∧ Represents q' (l ++ r) ∧
      Touches q q' (l ++ r) := by
  rcases h.around with ⟨hl, hfront, hback, hr⟩
  have hperm : (l ++ e :: r).Perm (e :: (l ++ r)) := List.perm_middle
  have hnodup := List.nodup_cons.mp (hperm.nodup_iff.mp h.nodup)
  have hel : e ∉ l := fun he => hnodup.1 (List.mem_append_left _ he)
  have her : e ∉ r := fun he => hnodup.1 (List.mem_append_right _ he)
  rcases setPrev_spec (isSome_of_prevOf hback.2) (lastNode l) with
    ⟨q₁, hset₁, hnext₁, hprev₁, hother₁, hsome₁⟩
  have hlast₁ : (q₁ (lastNode l)).isSome := by
    rw [hsome₁]
    exact isSome_of_nextOf hfront.1
  rcases setNext_spec hlast₁ r.head? with
    ⟨q₂, hset₂, hnext₂, hprev₂, hother₂, hsome₂⟩
  have hrun : remove e q = some q₂ := by
    have hpointer : nextOf (.entry e) q = some r.head? := by
      rw [<- pointer_firstNode]
      exact hback.1
    have hkept : prevOf (.entry e) q₁ = some (lastNode l) := by
      rw [hprev₁, if_neg (firstNode_ne her).symm]
      exact hfront.2
    have hkept' : nextOf (.entry e) q₁ = some r.head? := by
      rw [hnext₁]
      exact hpointer
    have hfirst : setPrevBehind r.head? (lastNode l) q = some q₁ := by
      rw [<- hset₁]
      cases r <;> rfl
    unfold remove
    simp only [hpointer, hfront.2, Option.bind_eq_bind, Option.bind_some,
      hfirst, hkept, hkept', hset₂]
  refine ⟨q₂, hrun, ?_, ?_, ?_⟩
  · have hparts : Linked q₂ (front l) ∧ Linked q₂ (back r) := by
      refine Represents.reseam hnodup.2 hl hr ?_ ?_
      · intro n hn _
        rw [hnext₂, if_neg hn, hnext₁]
      · intro n hn _
        rw [hprev₂, hprev₁, if_neg hn]
    refine Represents.join hnodup.2 hparts.1 ⟨?_, ?_⟩ hparts.2
    · rw [hnext₂, if_pos rfl, pointer_firstNode]
    · rw [hprev₂, hprev₁, if_pos rfl]
  · intro a ha
    have hal : a ∉ l := fun hmem => ha (List.mem_append_left _ hmem)
    have har : a ∉ r := fun hmem => ha (List.mem_append_right _ hmem)
    rw [hother₂ _ (lastNode_ne hal).symm, hother₁ _ (firstNode_ne har).symm]
  · intro n
    rw [hsome₂, hsome₁]

/-- Four links have been set to put an entry in. -/
theorem Represents.insert (h : Represents q (l ++ r)) (hb : b ∉ l ++ r)
    (hnext : forall n, nextOf n q' =
      if n = lastNode l then some (some b)
      else if n = .entry b then some r.head? else nextOf n q)
    (hprev : forall n, prevOf n q' =
      if n = firstNode r then some (.entry b)
      else if n = .entry b then some (lastNode l) else prevOf n q) :
    Represents q' (l ++ b :: r) := by
  rcases h.split with ⟨hl, _, hr⟩
  have hbl : b ∉ l := fun hmem => hb (List.mem_append_left _ hmem)
  have hbr : b ∉ r := fun hmem => hb (List.mem_append_right _ hmem)
  have hne : forall n, n ∈ front (l ++ r) -> n ≠ .entry b := by
    intro n hn heq
    rw [heq] at hn
    rcases mem_front.mp hn with hhead | ⟨a, ha, hentry⟩
    · cases hhead
    · injection hentry with hab
      exact hb (hab ▸ ha)
  have hparts : Linked q' (front l) ∧ Linked q' (back r) := by
    refine Represents.reseam h.nodup hl hr ?_ ?_
    · intro n hn hmem
      rw [hnext, if_neg hn, if_neg (hne n hmem)]
    · intro n hn hmem
      rw [hprev, if_neg hn, if_neg (hne n hmem)]
  have hperm : (l ++ b :: r).Perm (b :: (l ++ r)) := List.perm_middle
  have hnodup : (l ++ b :: r).Nodup := by
    rw [hperm.nodup_iff, List.nodup_cons]
    exact ⟨hb, h.nodup⟩
  refine Represents.join hnodup hparts.1 ⟨?_, ?_⟩
    ((linked_back_cons b r).mpr ⟨⟨?_, ?_⟩, hparts.2⟩)
  · rw [hnext, if_pos rfl]
    rfl
  · have hfirst : firstNode (b :: r) = .entry b := rfl
    rw [hfirst, hprev, if_neg (firstNode_ne hbr).symm, if_pos rfl]
  · rw [hnext, if_neg (lastNode_ne hbl).symm, if_pos rfl, pointer_firstNode]
  · rw [hprev, if_pos rfl]

theorem insertBefore_spec (h : Represents q (l ++ a :: r))
    (hb : b ∉ l ++ a :: r) (hsome : (q (.entry b)).isSome) :
    exists q', insertBefore a b q = some q' ∧
      Represents q' (l ++ b :: a :: r) ∧
      Touches q q' (b :: (l ++ a :: r)) := by
  have hprevA : prevOf (.entry a) q = some (lastNode l) := h.around.2.1.2
  have hbl : b ∉ l := fun hmem => hb (List.mem_append_left _ hmem)
  have hba : b ≠ a := fun hab => hb (by simp [hab])
  have hlastb := lastNode_ne hbl
  rcases setPrev_spec hsome (lastNode l) with
    ⟨q₁, hset₁, hnext₁, hprev₁, hother₁, hsome₁⟩
  have hb₁ : (q₁ (.entry b)).isSome := by
    rw [hsome₁]
    exact hsome
  rcases setNext_spec hb₁ (some a) with
    ⟨q₂, hset₂, hnext₂, hprev₂, hother₂, hsome₂⟩
  have hlast₂ : (q₂ (lastNode l)).isSome := by
    rw [hsome₂, hsome₁]
    exact isSome_of_nextOf h.around.2.1.1
  rcases setNext_spec hlast₂ (some b) with
    ⟨q₃, hset₃, hnext₃, hprev₃, hother₃, hsome₃⟩
  have ha₃ : (q₃ (.entry a)).isSome := by
    rw [hsome₃, hsome₂, hsome₁]
    exact isSome_of_prevOf hprevA
  rcases setPrev_spec ha₃ (.entry b) with
    ⟨q₄, hset₄, hnext₄, hprev₄, hother₄, hsome₄⟩
  have hentries : Node.entry a ≠ Node.entry b := by
    intro hab
    injection hab with hab
    exact hba hab.symm
  have hprevA₂ : prevOf (.entry a) q₂ = some (lastNode l) := by
    rw [hprev₂, hprev₁, if_neg hentries]
    exact hprevA
  have hrun : insertBefore a b q = some q₄ := by
    unfold insertBefore
    simp only [hprevA, Option.bind_eq_bind, Option.bind_some, hset₁, hset₂,
      hprevA₂, hset₃, hset₄]
  refine ⟨q₄, hrun, ?_, ?_, ?_⟩
  · refine h.insert hb ?_ ?_
    · intro n
      rw [hnext₄, hnext₃, hnext₂, hnext₁]
      rfl
    · intro n
      rw [hprev₄, hprev₃, hprev₂, hprev₁]
      rfl
  · intro c hc
    have hcb : c ≠ b := fun hcb => hc (hcb ▸ List.mem_cons_self)
    have hcl : c ∉ l := fun hmem =>
      hc (List.mem_cons_of_mem _ (List.mem_append_left _ hmem))
    have hca : c ≠ a := fun hca => hc (by simp [hca])
    rw [hother₄ _ (by simp [hca]), hother₃ _ (lastNode_ne hcl).symm,
      hother₂ _ (by simp [hcb]), hother₁ _ (by simp [hcb])]
  · intro n
    rw [hsome₄, hsome₃, hsome₂, hsome₁]

theorem insertTail_spec (h : Represents q l) (hb : b ∉ l)
    (hsome : (q (.entry b)).isSome) :
    exists q', insertTail b q = some q' ∧ Represents q' (l ++ [b]) ∧
      Touches q q' (b :: l) := by
  have hend : Represents q (l ++ []) := by
    rw [List.append_nil]
    exact h
  have hprevH : prevOf .head q = some (lastNode l) := hend.split.2.1.2
  have hlastb := lastNode_ne hb
  rcases setNext_spec hsome none with
    ⟨q₁, hset₁, hnext₁, hprev₁, hother₁, hsome₁⟩
  have hb₁ : (q₁ (.entry b)).isSome := by
    rw [hsome₁]
    exact hsome
  rcases setPrev_spec hb₁ (lastNode l) with
    ⟨q₂, hset₂, hnext₂, hprev₂, hother₂, hsome₂⟩
  have hlast₂ : (q₂ (lastNode l)).isSome := by
    rw [hsome₂, hsome₁]
    exact isSome_of_nextOf hend.split.2.1.1
  rcases setNext_spec hlast₂ (some b) with
    ⟨q₃, hset₃, hnext₃, hprev₃, hother₃, hsome₃⟩
  have hhead₃ : (q₃ .head).isSome := by
    rw [hsome₃, hsome₂, hsome₁]
    exact h.isSome_head
  rcases setPrev_spec hhead₃ (.entry b) with
    ⟨q₄, hset₄, hnext₄, hprev₄, hother₄, hsome₄⟩
  have hprevH₁ : prevOf .head q₁ = some (lastNode l) := by
    rw [hprev₁]
    exact hprevH
  have hprevH₂ : prevOf .head q₂ = some (lastNode l) := by
    rw [hprev₂, if_neg (by simp)]
    exact hprevH₁
  have hrun : insertTail b q = some q₄ := by
    unfold insertTail
    simp only [Option.bind_eq_bind, Option.bind_some, hset₁, hprevH₁, hset₂,
      hprevH₂, hset₃, hset₄]
  refine ⟨q₄, hrun, ?_, ?_, ?_⟩
  · refine hend.insert (by rw [List.append_nil]; exact hb) ?_ ?_
    · intro n
      rw [hnext₄, hnext₃, hnext₂, hnext₁]
      rfl
    · intro n
      rw [hprev₄, hprev₃, hprev₂, hprev₁]
      rfl
  · intro c hc
    have hcb : c ≠ b := fun hcb => hc (hcb ▸ List.mem_cons_self)
    have hcl : c ∉ l := fun hmem => hc (List.mem_cons_of_mem _ hmem)
    rw [hother₄ _ (by simp), hother₃ _ (lastNode_ne hcl).symm,
      hother₂ _ (by simp [hcb]), hother₁ _ (by simp [hcb])]
  · intro n
    rw [hsome₄, hsome₃, hsome₂, hsome₁]

theorem Represents.alloc (h : Represents q l) (hb : b ∉ l) :
    Represents (alloc b q) l := by
  refine h.congr ?_
  intro n hn
  refine Function.update_of_ne ?_ _ _
  rintro rfl
  rcases mem_front.mp hn with hhead | ⟨a, ha, hentry⟩
  · cases hhead
  · injection hentry with hab
    exact hb (hab ▸ ha)

theorem Represents.free (h : Represents q l) (hb : b ∉ l) :
    Represents (free b q) l := by
  refine h.congr ?_
  intro n hn
  refine Function.update_of_ne ?_ _ _
  rintro rfl
  rcases mem_front.mp hn with hhead | ⟨a, ha, hentry⟩
  · cases hhead
  · injection hentry with hab
    exact hb (hab ▸ ha)

/-- The first element of a list that is accepted, with its index. -/
def firstFrom (p : Nat -> α -> Bool) : Nat -> List α -> Option (Nat × α)
  | _, [] => none
  | i, a :: l => if p i a then some (i, a) else firstFrom p (i + 1) l

omit [DecidableEq α] in
theorem mem_of_firstFrom {p : Nat -> α -> Bool} {i j : Nat}
    (h : firstFrom p i l = some (j, a)) : a ∈ l := by
  induction l generalizing i with
  | nil => cases h
  | cons b l ih =>
      unfold firstFrom at h
      split at h
      · cases h
        exact List.mem_cons_self
      · exact List.mem_cons_of_mem _ (ih h)

omit [DecidableEq α] in
/-- A search with enough fuel ends, and it finds the first entry. -/
theorem search_from {accept : Nat -> α -> Option Bool}
    {p : Nat -> α -> Bool} (h : Represents q (l ++ r))
    (haccept : forall i a, a ∈ r -> accept i a = some (p i a))
    {fuel : Nat} (hfuel : r.length ≤ fuel) (i : Nat) :
    search accept q fuel i r.head? = some (firstFrom p i r) := by
  induction r generalizing l fuel i with
  | nil =>
      cases fuel <;> rfl
  | cons a r ih =>
      cases fuel with
      | zero => cases hfuel
      | succ fuel =>
          have hrest : Represents q ((l ++ [a]) ++ r) := by
            rw [List.append_assoc]
            exact h
          have hnext := ih hrest
            (fun i b hb => haccept i b (List.mem_cons_of_mem _ hb))
            (Nat.le_of_succ_le_succ hfuel) (i + 1)
          have ha := haccept i a List.mem_cons_self
          unfold search firstFrom
          rw [List.head?_cons]
          dsimp only
          rw [ha]
          change (if p i a then _ else _) = _
          split
          · rfl
          · rw [h.nextOf_entry]
            exact hnext

omit [DecidableEq α] in
theorem Represents.search {accept : Nat -> α -> Option Bool}
    {p : Nat -> α -> Bool} (h : Represents q l)
    (haccept : forall i a, a ∈ l -> accept i a = some (p i a))
    {fuel : Nat} (hfuel : l.length ≤ fuel) :
    search accept q fuel 0 l.head? = some (firstFrom p 0 l) :=
  search_from (l := []) h haccept hfuel 0

end Represents

end TailQueue
