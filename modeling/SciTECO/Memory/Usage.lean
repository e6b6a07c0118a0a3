import Mathlib.Algebra.BigOperators.Group.Finset.Basic
import Mathlib.Data.Finset.Lattice.Fold
import Mathlib.Data.List.Induction
import Mathlib.Order.Lattice.Nat

/-!
# Memory usage

The allocator functions are replaced by wrappers of dlmalloc, which keep count
of the usable sizes of all blocks.
-/

namespace SciTECO
namespace Memory

/-- A pointer which is not `NULL`. -/
abbrev Ptr : Type := Nat

/-!
## The allocator
-/

/-- What is known about a heap: its blocks and `dlmalloc_usable_size()`. -/
structure Blocks (Heap : Type) where
  live : Heap -> Finset Ptr
  usableSize : Heap -> Ptr -> Nat

namespace Blocks

variable {Heap : Type} (B : Blocks Heap)

/-- The sizes of all blocks. -/
def total (h : Heap) : Nat := ∑ p ∈ B.live h, B.usableSize h p

/-- Some blocks have the same sizes as before. -/
def Keeps (ps : Finset Ptr) (h h' : Heap) : Prop :=
  forall p, p ∈ ps -> B.usableSize h' p = B.usableSize h p

/-- There is a new block unless the call fails. -/
def Allocated (h : Heap) (r : Option Ptr × Heap) : Prop :=
  B.Keeps (B.live h) h r.2 ∧
    match r.1 with
    | none => B.live r.2 = B.live h
    | some p => p ∉ B.live h ∧ B.live r.2 = insert p (B.live h)

/-- A block has been moved or resized.  If the call fails, it is left as it
is. -/
def Reallocated (h : Heap) (p : Ptr) (r : Option Ptr × Heap) : Prop :=
  match r.1 with
  | none => B.live r.2 = B.live h ∧ B.Keeps (B.live h) h r.2
  | some q =>
      q ∉ (B.live h).erase p ∧ B.live r.2 = insert q ((B.live h).erase p) ∧
        B.Keeps ((B.live h).erase p) h r.2

/-- A block is gone. -/
def Freed (h : Heap) (p : Ptr) (h' : Heap) : Prop :=
  B.live h' = (B.live h).erase p ∧ B.Keeps ((B.live h).erase p) h h'

variable {B}

theorem total_keeps {h h' : Heap} (hlive : B.live h' = B.live h)
    (hkeeps : B.Keeps (B.live h) h h') : B.total h' = B.total h := by
  unfold total
  rw [hlive]
  exact Finset.sum_congr rfl hkeeps

theorem total_insert {ps : Finset Ptr} {h h' : Heap} {p : Ptr}
    (hlive : B.live h' = insert p ps) (hp : p ∉ ps)
    (hkeeps : B.Keeps ps h h') :
    B.total h' = B.usableSize h' p + ∑ q ∈ ps, B.usableSize h q := by
  unfold total
  rw [hlive, Finset.sum_insert hp, Finset.sum_congr rfl hkeeps]

theorem total_erase {h : Heap} {p : Ptr} (hp : p ∈ B.live h) :
    B.usableSize h p + ∑ q ∈ (B.live h).erase p, B.usableSize h q =
      B.total h :=
  Finset.add_sum_erase _ _ hp

end Blocks

/-- The functions of dlmalloc.  Pointers that are passed to them are those of
blocks. -/
structure Dlmalloc where
  Heap : Type
  blocks : Blocks Heap
  init : Heap
  dlmalloc : Nat -> Heap -> Option Ptr × Heap
  dlcalloc : Nat -> Nat -> Heap -> Option Ptr × Heap
  dlrealloc : Option Ptr -> Nat -> Heap -> Option Ptr × Heap
  dlfree : Ptr -> Heap -> Heap
  init_live : blocks.live init = ∅
  malloc_spec : forall n h, blocks.Allocated h (dlmalloc n h)
  calloc_spec : forall n size h, blocks.Allocated h (dlcalloc n size h)
  realloc_null : forall n h, blocks.Allocated h (dlrealloc none n h)
  realloc_spec : forall p n h, p ∈ blocks.live h ->
    blocks.Reallocated h p (dlrealloc (some p) n h)
  free_spec : forall p h, p ∈ blocks.live h -> blocks.Freed h p (dlfree p h)

/-!
## The wrappers
-/

section

variable (A : Dlmalloc)

/-- The heap with `teco_memory_usage`. -/
structure State where
  heap : A.Heap
  usage : BitVec 32

variable {A}

/-- `dlmalloc_usable_size()` as it is added to the counter. -/
def usableSize (h : A.Heap) (p : Ptr) : BitVec 32 :=
  BitVec.ofNat 32 (A.blocks.usableSize h p)

/-- Count a block that has been returned. -/
def account (usage : BitVec 32) (r : Option Ptr × A.Heap) :
    Option Ptr × State A :=
  match r.1 with
  | none => (none, { heap := r.2, usage := usage })
  | some p => (some p, { heap := r.2, usage := usage + usableSize r.2 p })

/-- `malloc()`. -/
def malloc (size : Nat) (s : State A) : Option Ptr × State A :=
  account s.usage (A.dlmalloc size s.heap)

/-- `free()`. -/
def free (ptr : Option Ptr) (s : State A) : State A :=
  match ptr with
  | none => s
  | some p =>
      { heap := A.dlfree p s.heap, usage := s.usage - usableSize s.heap p }

/-- `calloc()`. -/
def calloc (nmemb size : Nat) (s : State A) : Option Ptr × State A :=
  account s.usage (A.dlcalloc nmemb size s.heap)

/-- `realloc()`. -/
def realloc (ptr : Option Ptr) (size : Nat) (s : State A) :
    Option Ptr × State A :=
  let usage :=
    match ptr with
    | none => s.usage
    | some p => s.usage - usableSize s.heap p
  account usage (A.dlrealloc ptr size s.heap)

end

/-!
## Runs
-/

/-- A call of one of the functions. -/
inductive Call where
  | malloc (size : Nat)
  | calloc (nmemb size : Nat)
  | realloc (ptr : Option Ptr) (size : Nat)
  | free (ptr : Option Ptr)
deriving DecidableEq, Repr

section

variable {A : Dlmalloc}

def step (s : State A) : Call -> State A
  | .malloc size => (malloc size s).2
  | .calloc nmemb size => (calloc nmemb size s).2
  | .realloc ptr size => (realloc ptr size s).2
  | .free ptr => free ptr s

def run (s : State A) (calls : List Call) : State A := calls.foldl step s

variable (A) in
/-- No block has been allocated. -/
def State.init : State A := { heap := A.init, usage := 0 }

/-- A pointer that is passed is null or that of a block. -/
def Permitted (s : State A) : Call -> Prop
  | .realloc (some p) _ => p ∈ A.blocks.live s.heap
  | .free (some p) => p ∈ A.blocks.live s.heap
  | _ => True

/-- The counter is the sum of the sizes of all blocks. -/
def Exact (s : State A) : Prop :=
  s.usage = BitVec.ofNat 32 (A.blocks.total s.heap)

/-- A block that counts is to be moved or resized, which fails. -/
def Loses (s : State A) : Call -> Prop
  | .realloc (some p) size =>
      (A.dlrealloc (some p) size s.heap).1 = none ∧ usableSize s.heap p ≠ 0
  | _ => False

theorem init_exact : Exact (State.init A) := by
  unfold Exact State.init Blocks.total
  rw [A.init_live]
  rfl

/-- A call that may return a new block. -/
theorem account_allocated {s : State A} {r : Option Ptr × A.Heap}
    (hs : Exact s) (h : A.blocks.Allocated s.heap r) :
    Exact (account s.usage r).2 := by
  rcases r with ⟨ptr, heap⟩
  rcases h with ⟨hkeeps, hlive⟩
  unfold Exact at hs ⊢
  cases ptr with
  | none =>
      change s.usage = _
      rw [hs]
      exact congrArg _ (Blocks.total_keeps hlive hkeeps).symm
  | some p =>
      have htotal : A.blocks.total heap = A.blocks.usableSize heap p +
          A.blocks.total s.heap :=
        Blocks.total_insert hlive.2 hlive.1 hkeeps
      change s.usage + usableSize heap p =
        BitVec.ofNat 32 (A.blocks.total heap)
      rw [hs, htotal, BitVec.ofNat_add, BitVec.add_comm]
      rfl

/-- The sizes of the other blocks. -/
theorem exact_erase {s : State A} (hs : Exact s) {p : Ptr}
    (hp : p ∈ A.blocks.live s.heap) :
    s.usage - usableSize s.heap p = BitVec.ofNat 32
      (∑ q ∈ (A.blocks.live s.heap).erase p,
        A.blocks.usableSize s.heap q) := by
  unfold Exact at hs
  rw [hs, <- Blocks.total_erase hp, BitVec.ofNat_add, BitVec.add_comm]
  exact BitVec.add_sub_cancel _ _

theorem free_exact {s : State A} (hs : Exact s) {p : Ptr}
    (hp : p ∈ A.blocks.live s.heap) : Exact (free (some p) s) := by
  rcases A.free_spec p s.heap hp with ⟨hlive, hkeeps⟩
  change s.usage - usableSize s.heap p = BitVec.ofNat 32
    (A.blocks.total (A.dlfree p s.heap))
  rw [exact_erase hs hp]
  unfold Blocks.total
  rw [hlive]
  exact congrArg _ (Finset.sum_congr rfl hkeeps).symm

/-- A failed call has taken the block off the counter. -/
theorem realloc_exact_iff {s : State A} (hs : Exact s) {p : Ptr}
    (hp : p ∈ A.blocks.live s.heap) (size : Nat) :
    Exact (realloc (some p) size s).2 <->
      ¬ Loses s (.realloc (some p) size) := by
  have hspec := A.realloc_spec p size s.heap hp
  have herase := exact_erase hs hp
  change Exact (account (s.usage - usableSize s.heap p)
    (A.dlrealloc (some p) size s.heap)).2 <->
      ¬ ((A.dlrealloc (some p) size s.heap).1 = none ∧
        usableSize s.heap p ≠ 0)
  obtain ⟨⟨ptr, heap⟩, hr⟩ :
    exists r, A.dlrealloc (some p) size s.heap = r := ⟨_, rfl⟩
  rw [hr] at hspec ⊢
  cases ptr with
  | none =>
      have htotal : A.blocks.total heap = A.blocks.total s.heap :=
        Blocks.total_keeps hspec.1 hspec.2
      change s.usage - usableSize s.heap p =
        BitVec.ofNat 32 (A.blocks.total heap) <-> _
      rw [htotal, <- hs]
      constructor
      · rintro hsame ⟨_, hsize⟩
        apply hsize
        bv_omega
      · intro hnot
        have hzero : usableSize s.heap p = 0 :=
          Decidable.not_not.mp (fun hne => hnot ⟨rfl, hne⟩)
        rw [hzero]
        exact BitVec.sub_zero _
  | some q =>
      rcases hspec with ⟨hq, hlive, hkeeps⟩
      have htotal : A.blocks.total heap = A.blocks.usableSize heap q +
          ∑ x ∈ (A.blocks.live s.heap).erase p,
            A.blocks.usableSize s.heap x :=
        Blocks.total_insert hlive hq hkeeps
      constructor
      · rintro _ ⟨hnone, _⟩
        cases hnone
      · intro _
        change s.usage - usableSize s.heap p + usableSize heap q =
          BitVec.ofNat 32 (A.blocks.total heap)
        rw [herase, htotal, BitVec.ofNat_add, BitVec.add_comm]
        rfl

/-- One call. -/
theorem step_exact_iff {s : State A} (hs : Exact s) {call : Call}
    (hcall : Permitted s call) :
    Exact (step s call) <-> ¬ Loses s call := by
  cases call with
  | malloc size =>
      have hexact := account_allocated hs (A.malloc_spec size s.heap)
      exact ⟨fun _ h => h, fun _ => hexact⟩
  | calloc nmemb size =>
      have hexact := account_allocated hs (A.calloc_spec nmemb size s.heap)
      exact ⟨fun _ h => h, fun _ => hexact⟩
  | realloc ptr size =>
      cases ptr with
      | none =>
          have hexact := account_allocated hs (A.realloc_null size s.heap)
          exact ⟨fun _ h => h, fun _ => hexact⟩
      | some p => exact realloc_exact_iff hs hcall size
  | free ptr =>
      cases ptr with
      | none => exact ⟨fun _ h => h, fun _ => hs⟩
      | some p =>
          have hexact := free_exact hs hcall
          exact ⟨fun _ h => h, fun _ => hexact⟩

/-- Every call of a run is permitted in its state. -/
def AllPermitted (s : State A) (calls : List Call) : Prop :=
  forall front call, front ++ [call] <+: calls -> Permitted (run s front) call

theorem run_append (s : State A) (front back : List Call) :
    run s (front ++ back) = run (run s front) back :=
  List.foldl_append

/-- The counter is exact in all states of a run if and only if no call loses a
block. -/
theorem run_exact_iff (A : Dlmalloc) (calls : List Call)
    (h : AllPermitted (State.init A) calls) :
    (forall front, front <+: calls -> Exact (run (State.init A) front)) <->
      forall front call, front ++ [call] <+: calls ->
        ¬ Loses (run (State.init A) front) call := by
  constructor
  · intro hall front call hprefix
    have hfront := (List.prefix_append front [call]).trans hprefix
    have hexact := hall (front ++ [call]) hprefix
    rw [run_append] at hexact
    exact (step_exact_iff (hall front hfront) (h front call hprefix)).mp hexact
  · intro hkeeps front
    induction front using List.reverseRecOn with
    | nil => exact fun _ => init_exact
    | append_singleton front call ih =>
        intro hprefix
        have hfront := (List.prefix_append front [call]).trans hprefix
        have hexact := (step_exact_iff (ih hfront) (h front call hprefix)).mpr
          (hkeeps front call hprefix)
        rw [run_append]
        exact hexact

/-- The steps of a run by their indices. -/
theorem forall_steps {calls : List Call} {P : List Call -> Call -> Prop}
    (h : forall (i : Nat) (hi : i < calls.length), P (calls.take i) calls[i]) :
    forall front call, front ++ [call] <+: calls -> P front call := by
  rintro front call ⟨back, rfl⟩
  have hi : front.length < (front ++ [call] ++ back).length := by
    rw [List.length_append, List.length_append, List.length_singleton]
    omega
  have hstep := h front.length hi
  have htake : (front ++ [call] ++ back).take front.length = front := by
    rw [List.append_assoc, List.take_left]
  have hget : (front ++ [call] ++ back)[front.length] = call := by
    rw [List.getElem_append_left (by
        rw [List.length_append, List.length_singleton]
        exact Nat.lt_succ_self _),
      List.getElem_append_right (Nat.le_refl _)]
    simp
  rw [htake, hget] at hstep
  exact hstep

end

/-!
## A heap that grows
-/

/-- The blocks of a heap and their usable sizes. -/
structure GrowingHeap where
  live : Finset Ptr
  size : Ptr -> Nat

namespace GrowingHeap

/-- `MAX_REQUEST`. -/
def maxRequest : Nat := 2 ^ 64 - 128

/-- The usable size of a chunk for a request. -/
def sizeOf (request : Nat) : Nat :=
  if request < 23 then 24 else (request + 23) / 16 * 16 - 8

/-- A pointer behind all others. -/
def fresh (h : GrowingHeap) : Ptr := h.live.sup id + 16

def put (h : GrowingHeap) (p : Ptr) (request : Nat) : GrowingHeap :=
  { live := insert p h.live
    size := fun q => if q = p then sizeOf request else h.size q }

def alloc (request : Nat) (h : GrowingHeap) : Option Ptr × GrowingHeap :=
  if request < maxRequest then (some h.fresh, h.put h.fresh request)
  else (none, h)

/-- A block is resized in its place. -/
def realloc (ptr : Option Ptr) (request : Nat) (h : GrowingHeap) :
    Option Ptr × GrowingHeap :=
  match ptr with
  | none => alloc request h
  | some p =>
      if request < maxRequest then
        (some p, { h with live := h.live.erase p }.put p request)
      else (none, h)

def blocks : Blocks GrowingHeap where
  live := fun h => h.live
  usableSize := fun h p => h.size p

theorem fresh_notMem (h : GrowingHeap) : h.fresh ∉ h.live := by
  intro hmem
  have hle : h.live.sup id + 16 ≤ h.live.sup id :=
    Finset.le_sup (f := id) hmem
  exact absurd hle (Nat.not_le.mpr (Nat.lt_add_of_pos_right (by decide)))

theorem put_keeps {h : GrowingHeap} {p : Ptr} {ps : Finset Ptr}
    (hp : p ∉ ps) (request : Nat) : blocks.Keeps ps h (h.put p request) := by
  intro q hq
  have hne : q ≠ p := fun heq => hp (heq ▸ hq)
  exact if_neg hne

theorem alloc_allocated (request : Nat) (h : GrowingHeap) :
    blocks.Allocated h (alloc request h) := by
  unfold alloc
  split
  · exact ⟨put_keeps h.fresh_notMem request, h.fresh_notMem, rfl⟩
  · exact ⟨fun _ _ => rfl, rfl⟩

theorem realloc_reallocated (p : Ptr) (request : Nat) (h : GrowingHeap) :
    blocks.Reallocated h p (realloc (some p) request h) := by
  unfold realloc
  dsimp only
  split
  · have hp := Finset.notMem_erase p h.live
    exact ⟨hp, rfl, put_keeps hp request⟩
  · exact ⟨rfl, fun _ _ => rfl⟩

end GrowingHeap

/-- An allocator that never runs out of memory, but refuses requests which
are too large. -/
def growing : Dlmalloc where
  Heap := GrowingHeap
  blocks := GrowingHeap.blocks
  init := { live := ∅, size := fun _ => 0 }
  dlmalloc := GrowingHeap.alloc
  dlcalloc := fun nmemb size => GrowingHeap.alloc (nmemb * size)
  dlrealloc := GrowingHeap.realloc
  dlfree := fun p h => { h with live := h.live.erase p }
  init_live := rfl
  malloc_spec := GrowingHeap.alloc_allocated
  calloc_spec := fun nmemb size => GrowingHeap.alloc_allocated (nmemb * size)
  realloc_null := GrowingHeap.alloc_allocated
  realloc_spec := fun p request h _ =>
    GrowingHeap.realloc_reallocated p request h
  free_spec := fun _ _ _ => ⟨rfl, fun _ _ => rfl⟩

/-- A block that is resized and released. -/
theorem run_exact_iff_growing :
    AllPermitted (State.init growing)
      [.malloc 24, .realloc (some 16) 100, .free (some 16)] ∧
    forall front,
      front <+: [.malloc 24, .realloc (some 16) 100, .free (some 16)] ->
        Exact (run (State.init growing) front) := by
  have hpermitted : AllPermitted (State.init growing)
      [.malloc 24, .realloc (some 16) 100, .free (some 16)] := by
    apply forall_steps
    intro i hi
    rcases i with _ | _ | _ | i
    · trivial
    · change 16 ∈ (insert 16 ∅ : Finset Ptr)
      decide
    · change 16 ∈ (insert 16 (Finset.erase (insert 16 ∅) 16) : Finset Ptr)
      decide
    · exact absurd hi (by simp)
  constructor
  · exact hpermitted
  · apply (run_exact_iff growing _ hpermitted).mpr
    apply forall_steps
    intro i hi
    rcases i with _ | _ | _ | i
    · exact fun h => h
    · rintro ⟨hnone, _⟩
      cases hnone
    · exact fun h => h
    · exact absurd hi (by simp)

/-- A request that is too large fails, and the block is no longer counted. -/
theorem run_inexact :
    ¬ forall (A : Dlmalloc) (calls : List Call),
      AllPermitted (State.init A) calls ->
        Exact (run (State.init A) calls) := by
  intro hall
  have hexact := hall growing
    [.malloc 24, .realloc (some 16) (2 ^ 64 - 1)] (by
      apply forall_steps
      intro i hi
      rcases i with _ | _ | i
      · trivial
      · change 16 ∈ (insert 16 ∅ : Finset Ptr)
        decide
      · exact absurd hi (by simp))
  have hcount : (run (State.init growing)
      [.malloc 24, .realloc (some 16) (2 ^ 64 - 1)]).usage = 0 := by
    decide
  have htotal : growing.blocks.total (run (State.init growing)
      [.malloc 24, .realloc (some 16) (2 ^ 64 - 1)]).heap = 24 := by
    decide
  unfold Exact at hexact
  rw [hcount, htotal] at hexact
  exact absurd hexact (by decide)

end Memory
end SciTECO
