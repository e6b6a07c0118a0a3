import SciTECO.QReg.DocumentRuns

/-!
# Reference counts of documents

The reference counts in all states that are reached by setting, pushing and
popping strings, by creating and discarding registers and by running and
discarding undo tokens.
-/

namespace SciTECO
namespace Documents

open References

variable {Reg : Type} [DecidableEq Reg]

/-- What happens to documents.  Between `stackPopInteger` and `stackPopString`
the integer of the register is set. -/
inductive Op (Reg : Type) where
  | character
  | setString (name : Reg) (str : Bytes)
  | stackPush (name : Reg) (own : Option Bytes)
  | stackPopInteger (name : Reg) (accepted : Bool)
  | stackPopString (external : State.External)
  | tableInsert (name : Reg) (mustUndo : Bool)
  | tableEmpty (name : Reg)
  | undoPop
  | undoClear

namespace Op

/-- Commands have existing registers.  Characters are not added to or removed
from the command line within a command, and a register is not discarded while it
is popped. -/
def possible (op : Op Reg) (s : State Reg) : Bool :=
  match op with
  | .character | .undoPop | .undoClear => s.popping.isEmpty
  | .setString name _ =>
      match s.find name with
      | none => false
      | some qreg => !qreg.external
  | .stackPush name _ | .stackPopInteger name _ => (s.find name).isSome
  | .stackPopString _ | .tableInsert _ _ => true
  | .tableEmpty name =>
      (s.find name).isSome && s.popping.all (fun pop => pop.name ≠ name)

def execute (op : Op Reg) (s : State Reg) : Option (State Reg) :=
  match op with
  | .character => some s.nextCharacter
  | .setString name str => s.plainSetString name str
  | .stackPush name own => s.stackPush name own
  | .stackPopInteger name accepted => some (s.stackPopInteger name accepted)
  | .stackPopString external => s.stackPopString external
  | .tableInsert name mustUndo => s.tableInsert name mustUndo
  | .tableEmpty name => s.tableEmpty name
  | .undoPop => s.undoPop
  | .undoClear => s.undoClear

def step (op : Op Reg) (s : State Reg) : Option (State Reg) :=
  if op.possible s then op.execute s else some s

/-- The array of the push-down stack is not moved while undo tokens refer to its
cells, and an entry that is popped is still the last one. -/
def Meets (op : Op Reg) (s : State Reg) : Prop :=
  match op with
  | .stackPush _ _ =>
      s.stack.length < s.capacity ∨
        forall token, token ∈ s.undo.flatten -> token.ofCell = false
  | .stackPopString _ =>
      match s.popping with
      | [] => True
      | pop :: _ => pop.block = s.block ∧ pop.index + 1 = s.stack.length
  | _ => True

theorem step_possible {op : Op Reg} {s : State Reg} (h : op.possible s = true) :
    op.step s = op.execute s :=
  if_pos h

end Op

def run : List (Op Reg) -> State Reg -> Option (State Reg)
  | [], s => some s
  | op :: ops, s =>
      match op.step s with
      | none => none
      | some t => run ops t

/-- Every step of a run meets the condition. -/
def Meets : List (Op Reg) -> State Reg -> Prop
  | [], _ => True
  | op :: ops, s =>
      op.Meets s ∧
        match op.step s with
        | none => True
        | some t => Meets ops t

namespace State

variable {s t : State Reg}

/-- The registers, the entries of the push-down stack, the register view and the
undo tokens. -/
def owners (s : State Reg) : Multiset DocId :=
  s.held + ofOwners Token.owns s.undo.flatten

def Exactly (s : State Reg) : Prop :=
  forall id, (s.docs id).refs = s.owners.count id

/-- A state between two command lines. -/
structure Start (s : State Reg) : Prop where
  exact : s.Exactly
  fresh : forall id, s.nextDoc <= id -> (s.docs id).refs = 0
  names : (s.qregs.map QReg.name).Nodup
  current : forall name, s.current = some name -> (s.find name).isSome
  entry : s.entry = .init
  popping : s.popping = []
  undo : s.undo = []

theorem Start.good (h : Start s) : Good s := by
  constructor
  · exact ⟨h.exact, h.fresh, h.names, h.current⟩
  · rw [h.undo]
    trivial
  · rw [h.entry]
    rfl
  · exact fun _ => h.undo
  · rw [h.popping]
    intro pop hpop
    cases hpop

end State

open State

variable {s t : State Reg}

/-- One step. -/
theorem step_good {op : Op Reg} (h : Good s) (hmeets : op.Meets s) :
    Yields (op.step s) Good := by
  unfold Op.step
  apply Yields.ite
  · intro hpossible
    cases op with
    | character => exact Yields.some (nextCharacter_good h)
    | setString name str =>
        have hname : s.Valid (.qreg name) := by
          rw [valid_qreg]
          simp only [Op.possible] at hpossible
          cases hfind : s.find name with
          | none =>
              rw [hfind] at hpossible
              cases hpossible
          | some qreg => rfl
        exact plainSetString_good h hname str
    | stackPush name own =>
        have hname : s.Valid (.qreg name) := valid_qreg.mpr hpossible
        apply (stackPush_pushed h hname own).mono
        rintro t (ht | ⟨rfl, _⟩)
        · exact ht.good h hmeets
        · exact h
    | stackPopInteger name accepted =>
        exact Yields.some (stackPopInteger_good h hpossible accepted)
    | stackPopString external =>
        cases hpopping : s.popping with
        | nil =>
            have hsame : s.stackPopString external = some s := by
              unfold stackPopString
              rw [hpopping]
            show Yields (s.stackPopString external) Good
            rw [hsame]
            exact Yields.some h
        | cons pop popping =>
            have hpop : pop ∈ s.popping := by
              rw [hpopping]
              exact List.mem_cons_self
            rcases Option.isSome_iff_exists.mp (h.popping pop hpop) with
              ⟨qreg, hfind⟩
            simp only [Op.Meets, hpopping] at hmeets
            exact (stackPopString_yields h external hpopping hfind hmeets.1
              hmeets.2).mono (fun _ ht => ht.1)
    | tableInsert name mustUndo => exact tableInsert_good h name mustUndo
    | tableEmpty name =>
        simp only [Op.possible, Bool.and_eq_true, List.all_eq_true,
          decide_eq_true_eq] at hpossible
        exact tableEmpty_good h (valid_qreg.mpr hpossible.1) hpossible.2
    | undoPop =>
        exact undoPop_good h (List.isEmpty_iff.mp hpossible)
    | undoClear => exact undoClear_good h
  · intro _
    exact Yields.some h

theorem run_good {ops : List (Op Reg)} (h : Good s) (hmeets : Meets ops s) :
    Yields (run ops s) Good := by
  induction ops generalizing s with
  | nil => exact Yields.some h
  | cons op ops ih =>
      rcases step_good h hmeets.1 with ⟨t, hstep, ht⟩
      have hrest := hmeets.2
      unfold run
      rw [hstep] at hrest ⊢
      exact ih ht hrest

/-- In every run which meets the condition no document is used after it has been
released, and the counts are exact in the end. -/
theorem run_exactly {ops : List (Op Reg)} (h : Start s)
    (hmeets : Meets ops s) :
    exists t, run ops s = some t ∧ t.Exactly := by
  rcases run_good h.good hmeets with ⟨t, hrun, ht⟩
  exact ⟨t, hrun, ht.counted.exact⟩

/-- A register which has never been set, while another document is in the
view. -/
def unset (capacity : Nat) : State Nat where
  docs := fun id => { refs := if id = 0 then 1 else 0, text := [], history := [] }
  nextDoc := 1
  qregs := [{ name := 0, string := .init, mustUndo := true, external := false }]
  current := none
  view := { doc := 0, params := .zero }
  stack := []
  block := 0
  capacity := capacity
  entry := .init
  popping := []
  undoEnabled := true
  undo := []

theorem unset_start (capacity : Nat) : Start (unset capacity) := by
  constructor
  · intro id
    show (if id = 0 then 1 else 0) = (({0} : Multiset DocId)).count id
    rw [Multiset.count_singleton]
  · intro id hid
    have hne : id ≠ 0 := Nat.ne_of_gt hid
    show (if id = 0 then 1 else 0) = 0
    rw [if_neg hne]
  · exact List.nodup_singleton 0
  · intro name hname
    cases hname
  all_goals rfl

/-- A string is pushed and popped again, and both are rubbed out. -/
theorem run_exactly_pushed :
    exists t, run [.character, .setString 0 [97], .character, .stackPush 0 none,
      .character, .stackPopInteger 0 true,
      .stackPopString { undoSetString := true, getString := none
                        setString := true },
      .undoPop, .undoPop, .undoClear] (unset 1024) = some t ∧ t.Exactly := by
  apply run_exactly (unset_start 1024)
  refine ⟨trivial, trivial, trivial, Or.inl (by decide), trivial, trivial,
    ⟨rfl, rfl⟩, trivial, trivial, trivial, trivial⟩

/-!
## A stack that is moved
-/

theorem run_cons (op : Op Reg) (ops : List (Op Reg)) (s : State Reg) :
    run (op :: ops) s = (op.step s).bind (run ops) := by
  rw [run]
  cases op.step s with
  | none => rfl
  | some t => rfl

theorem run_append (ops ops' : List (Op Reg)) (s : State Reg) :
    run (ops ++ ops') s = (run ops s).bind (run ops') := by
  induction ops generalizing s with
  | nil => rfl
  | cons op ops ih =>
      rw [List.cons_append, run_cons, run_cons, Option.bind_assoc]
      exact Option.bind_congr (fun t _ => ih t)

/-- Strings are pushed by characters of their own. -/
def pushes (count : Nat) : List (Op Nat) :=
  (List.replicate count [.character, .stackPush 0 none]).flatten

/-- The stack is filled, an entry is popped and two strings are pushed, of which
the second one does not fit.  Then the last three commands are rubbed out. -/
def overflow (capacity : Nat) : List (Op Nat) :=
  pushes capacity ++
    ([.character, .stackPopInteger 0 true,
      .stackPopString { undoSetString := true, getString := none
                        setString := true }] ++
    (pushes 2 ++ [.undoPop, .undoPop, .undoPop]))

/-- States with some entries on the stack, which has not been moved. -/
structure Filled (capacity count : Nat) (s : State Nat) : Prop where
  good : Good s
  qregs : s.qregs.map (fun qreg => (qreg.name, qreg.mustUndo, qreg.external)) =
    (unset capacity).qregs.map
      (fun qreg => (qreg.name, qreg.mustUndo, qreg.external))
  length : s.stack.length = count
  block : s.block = 0
  capacity : s.capacity = capacity
  popping : s.popping = []
  undoEnabled : s.undoEnabled = true

section Overflow

variable {capacity count : Nat} {s t : State Nat}

theorem unset_filled (capacity : Nat) :
    Filled capacity 0 (unset capacity) :=
  ⟨(unset_start capacity).good, rfl, rfl, rfl, rfl, rfl, rfl⟩

theorem Filled.find (h : Filled capacity count s) :
    exists qreg, s.find 0 = some qreg ∧ qreg.external = false := by
  have hkind : (s.qregs.find? (fun qreg => qreg.name = 0)).map
        (fun qreg => (qreg.name, qreg.mustUndo, qreg.external)) =
      ((unset capacity).qregs.find? (fun qreg => qreg.name = 0)).map
        (fun qreg => (qreg.name, qreg.mustUndo, qreg.external)) :=
    find_map_kind 0 h.qregs
  cases hfind : s.qregs.find? (fun qreg => qreg.name = 0) with
  | none =>
      rw [hfind] at hkind
      cases hkind
  | some qreg =>
      rw [hfind] at hkind
      have hsome := Option.some.inj hkind
      exact ⟨qreg, hfind, congrArg (fun kind => kind.2.2) hsome⟩

theorem Filled.nextCharacter (h : Filled capacity count s) :
    Filled capacity count s.nextCharacter ∧
      s.nextCharacter.undo = [] :: s.undo := by
  have hnext : s.nextCharacter = { s with undo := [] :: s.undo } :=
    if_pos h.undoEnabled
  constructor
  · refine ⟨nextCharacter_good h.good, ?_, ?_, ?_, ?_, ?_, ?_⟩
    all_goals rw [hnext]
    · exact h.qregs
    · exact h.length
    · exact h.block
    · exact h.capacity
    · exact h.popping
    · exact h.undoEnabled
  · rw [hnext]

theorem Filled.step_character (h : Filled capacity count s) :
    (Op.character : Op Nat).step s = some s.nextCharacter := by
  have hpossible : (Op.character : Op Nat).possible s = true := by
    unfold Op.possible
    rw [h.popping]
    rfl
  exact Op.step_possible hpossible

/-- One more string is pushed. -/
theorem push_pushed (h : Filled capacity count s) :
    Yields (run [.character, .stackPush 0 none] s) (fun t =>
      Pushed s.nextCharacter t) := by
  rcases h.nextCharacter with ⟨hnext, _⟩
  rcases hnext.find with ⟨qreg, hfind, hexternal⟩
  have hvalid : s.nextCharacter.Valid (.qreg 0) := by
    rw [valid_qreg, hfind]
    rfl
  have hfirst := h.step_character
  have hsecond : (Op.stackPush 0 none : Op Nat).step s.nextCharacter =
      s.nextCharacter.stackPush 0 none :=
    Op.step_possible (valid_qreg.mp hvalid)
  have hrun : run [.character, .stackPush 0 none] s =
      s.nextCharacter.stackPush 0 none := by
    rw [run_cons, hfirst, Option.bind_some, run_cons, hsecond]
    exact Option.bind_fun_some _
  rw [hrun]
  apply (stackPush_pushed hnext.good hvalid none).mono
  rintro t (ht | ⟨_, qreg', hfind', hexternal'⟩)
  · exact ht
  · rw [hfind] at hfind'
    cases hfind'
    rw [hexternal] at hexternal'
    cases hexternal'

theorem Pushed.undo_cons (h : Filled capacity count s)
    (ht : Pushed s.nextCharacter t) :
    t.undo = [.stackRemoveLast] :: s.undo := by
  rcases h.nextCharacter with ⟨hnext, hundo⟩
  have hrecorded : recorded s.nextCharacter [Token.stackRemoveLast] =
      [.stackRemoveLast] := if_pos hnext.undoEnabled
  rw [ht.undo, hrecorded, hundo]
  rfl

theorem Pushed.filled (h : Filled capacity count s)
    (ht : Pushed s.nextCharacter t) (hroom : count < capacity) :
    Filled capacity (count + 1) t := by
  rcases h.nextCharacter with ⟨hnext, _⟩
  have hlt : s.nextCharacter.stack.length < s.nextCharacter.capacity := by
    rw [hnext.length, hnext.capacity]
    exact hroom
  have hfull := Nat.ne_of_lt hlt
  constructor
  · exact ht.good hnext.good (Or.inl hlt)
  · exact ht.qregs.trans hnext.qregs
  · rw [ht.length, hnext.length]
  · rw [ht.block, if_neg hfull]
    exact hnext.block
  · rw [ht.capacity, if_neg hfull]
    exact hnext.capacity
  · rw [ht.popping]
    exact hnext.popping
  · rw [ht.undoEnabled]
    exact hnext.undoEnabled

/-- The stack is filled. -/
theorem run_pushes {added : Nat} (h : Filled capacity count s)
    (hroom : count + added <= capacity) :
    Yields (run (pushes added) s) (Filled capacity (count + added)) := by
  induction added generalizing count s with
  | zero => exact Yields.some h
  | succ added ih =>
      have hfirst : pushes (added + 1) =
          [.character, .stackPush 0 none] ++ pushes added := rfl
      rw [hfirst, run_append]
      apply Yields.bind (push_pushed h)
      intro t ht
      have hlt : count < capacity := by omega
      have hcount : count + (added + 1) = count + 1 + added := by omega
      rw [hcount] at hroom ⊢
      exact ih (Pushed.filled h ht hlt) hroom

/-- An entry is popped, and a token refers to its cell. -/
theorem run_pop (h : Filled capacity (count + 1) s) (external : External) :
    Yields (run [.character, .stackPopInteger 0 true,
        .stackPopString external] s) (fun t =>
      Filled capacity count t ∧ exists entry params new undo,
        t.undo = (.stackEntry entry :: .params (.cell 0 count) params :: new) ::
          undo) := by
  rcases h.nextCharacter with ⟨hnext, hundo⟩
  rcases hnext.find with ⟨qreg, hfind, hexternal⟩
  have hne : s.nextCharacter.stack ≠ [] := by
    intro hnil
    have hlength := hnext.length
    rw [hnil] at hlength
    cases hlength
  have hinteger : s.nextCharacter.stackPopInteger 0 true =
      { s.nextCharacter with
        popping := [{ name := 0, block := 0, index := count }] } := by
    have hpop : ({ name := 0, block := s.nextCharacter.block
                   index := s.nextCharacter.stack.length - 1 } :
        Popping Nat) :: s.nextCharacter.popping =
          [{ name := 0, block := 0, index := count }] := by
      rw [hnext.block, hnext.length, hnext.popping]
      rfl
    unfold stackPopInteger
    rw [if_pos ⟨hne, rfl⟩, hpop]
  have hfound : (s.nextCharacter.find 0).isSome := by
    rw [hfind]
    rfl
  have hgood : Good (s.nextCharacter.stackPopInteger 0 true) :=
    stackPopInteger_good hnext.good hfound true
  rw [hinteger] at hgood
  have hfirst := h.step_character
  have hsecond : (Op.stackPopInteger 0 true : Op Nat).step s.nextCharacter =
      some { s.nextCharacter with
        popping := [{ name := 0, block := 0, index := count }] } := by
    have hpossible : (Op.stackPopInteger 0 true : Op Nat).possible
        s.nextCharacter = true := hfound
    rw [Op.step_possible hpossible, <- hinteger]
    rfl
  have hrun : run [.character, .stackPopInteger 0 true,
      .stackPopString external] s =
        ({ s.nextCharacter with
          popping := [{ name := 0, block := 0, index := count }] } :
            State Nat).stackPopString external := by
    rw [run_cons, hfirst, Option.bind_some, run_cons, hsecond,
      Option.bind_some, run_cons, Op.step_possible rfl]
    exact Option.bind_fun_some _
  rw [hrun]
  apply (stackPopString_yields hgood external rfl hfind hnext.block.symm
    hnext.length.symm).mono
  rintro t ⟨ht, hplain⟩
  have hpopped := hplain hexternal
  constructor
  · refine ⟨ht, hpopped.qregs.trans hnext.qregs, ?_,
      hpopped.block.trans hnext.block, hpopped.capacity.trans hnext.capacity,
      hpopped.popping, hpopped.undoEnabled.trans hnext.undoEnabled⟩
    rw [hpopped.length]
    show s.nextCharacter.stack.length - 1 = count
    rw [hnext.length]
    rfl
  · rcases hpopped.undo with ⟨entry, params, new, heq⟩
    refine ⟨entry, params, new, s.undo, ?_⟩
    rw [heq]
    unfold recorded
    rw [if_pos (show _ = true from hnext.undoEnabled)]
    show onto _ s.nextCharacter.undo = _
    rw [hundo]
    simp [onto]

omit [DecidableEq Reg] in
theorem releaseDocument_fields {s t : State Reg} {id : DocId}
    (h : s.releaseDocument id = some t) :
    t.block = s.block ∧ t.popping = s.popping ∧ t.undo = s.undo := by
  unfold releaseDocument at h
  split at h
  case isTrue => cases h
  case isFalse =>
    cases h
    exact ⟨rfl, rfl, rfl⟩

omit [DecidableEq Reg] in
theorem stackRemoveLast_fields {s t : State Reg}
    (h : s.stackRemoveLast = some t) :
    t.block = s.block ∧ t.popping = s.popping ∧ t.undo = s.undo := by
  unfold stackRemoveLast at h
  rcases Option.bind_eq_some_iff.mp h with ⟨entry, _, hrest⟩
  rcases Option.bind_eq_some_iff.mp hrest with ⟨u, hu, heq⟩
  cases heq
  cases hdoc : entry.doc with
  | none =>
      rw [hdoc] at hu
      cases hu
      exact ⟨rfl, rfl, rfl⟩
  | some id =>
      rw [hdoc] at hu
      have hrelease : s.releaseDocument id = some u := hu
      have hfields := releaseDocument_fields hrelease
      exact hfields

/-- Where tokens refer to the cells of an array which has been moved. -/
structure Dangling (s : State Nat) (undo : List (List (Token Nat))) :
    Prop where
  block : s.block = 1
  popping : s.popping = []
  undo : s.undo = undo

theorem Dangling.undoPop {undo : List (List (Token Nat))}
    (h : Dangling s ([.stackRemoveLast] :: undo))
    (hstep : (Op.undoPop : Op Nat).step s = some t) : Dangling t undo := by
  have hpossible : (Op.undoPop : Op Nat).possible s = true := by
    unfold Op.possible
    rw [h.popping]
    rfl
  rw [Op.step_possible hpossible] at hstep
  have hpop : s.undoPop = stackRemoveLast { s with undo := undo } := by
    unfold State.undoPop
    rw [h.undo]
    exact Option.bind_fun_some _
  have hremoved : stackRemoveLast { s with undo := undo } = some t := by
    rw [<- hpop]
    exact hstep
  rcases stackRemoveLast_fields hremoved with ⟨hblock, hpopping, hundo⟩
  exact ⟨hblock.trans h.block, hpopping.trans h.popping, hundo⟩

theorem Dangling.undoPop_none {index : Nat} {entry : TecoDoc}
    {params : Params} {new : List (Token Nat)} {undo : List (List (Token Nat))}
    (h : Dangling s ((.stackEntry entry ::
      .params (.cell 0 index) params :: new) :: undo)) :
    (Op.undoPop : Op Nat).step s = none := by
  have hpossible : (Op.undoPop : Op Nat).possible s = true := by
    unfold Op.possible
    rw [h.popping]
    rfl
  rw [Op.step_possible hpossible]
  show s.undoPop = none
  have hmoved : 0 ≠ s.block := by
    rw [h.block]
    exact Nat.zero_ne_one
  unfold State.undoPop
  rw [h.undo]
  simp only [runTokens, runToken, Option.bind_eq_bind, Option.bind_some,
    State.read, if_neg hmoved, Option.bind_none]

/-- Both strings are rubbed out, but the popped entry cannot be restored. -/
theorem run_undoPops {index : Nat} {entry : TecoDoc} {params : Params}
    {new : List (Token Nat)} {undo : List (List (Token Nat))}
    (h : Dangling s ([.stackRemoveLast] :: [.stackRemoveLast] ::
      (.stackEntry entry :: .params (.cell 0 index) params :: new) :: undo)) :
    run [.undoPop, .undoPop, .undoPop] s = none := by
  rw [run_cons]
  cases hfirst : (Op.undoPop : Op Nat).step s with
  | none => rfl
  | some t =>
      have ht := h.undoPop hfirst
      rw [Option.bind_some, run_cons]
      cases hsecond : (Op.undoPop : Op Nat).step t with
      | none => rfl
      | some u =>
          have hu := ht.undoPop hsecond
          rw [Option.bind_some, run_cons, hu.undoPop_none]
          rfl

theorem run_overflow {count : Nat} :
    run (overflow (count + 1)) (unset (count + 1)) = none := by
  have hroom : 0 + (count + 1) <= count + 1 := by omega
  rcases run_pushes (unset_filled (count + 1)) hroom with ⟨s, hs, hfull⟩
  rw [Nat.zero_add] at hfull
  rcases run_pop hfull { undoSetString := true, getString := none
                         setString := true } with
    ⟨t, ht, hpopped, entry, params, new, undo, hundo⟩
  rcases push_pushed hpopped with ⟨u, hu, hpushed⟩
  have hrefilled := Pushed.filled hpopped hpushed (Nat.lt_succ_self count)
  rcases push_pushed hrefilled with ⟨v, hv, hmoved⟩
  rcases hrefilled.nextCharacter with ⟨hnext, _⟩
  have hdangling : Dangling v ([.stackRemoveLast] :: [.stackRemoveLast] ::
      (.stackEntry entry :: .params (.cell 0 count) params :: new) ::
        undo) := by
    constructor
    · rw [hmoved.block, hnext.length, hnext.capacity, if_pos rfl, hnext.block]
    · rw [hmoved.popping, hnext.popping]
    · rw [Pushed.undo_cons hrefilled hmoved, Pushed.undo_cons hpopped hpushed,
        hundo]
  have hlast : pushes 2 ++ [.undoPop, .undoPop, .undoPop] =
      [.character, .stackPush 0 none] ++ ([.character, .stackPush 0 none] ++
        [.undoPop, .undoPop, .undoPop]) := rfl
  unfold overflow
  rw [run_append, hs, Option.bind_some, run_append, ht, Option.bind_some,
    hlast, run_append, hu, Option.bind_some, run_append, hv, Option.bind_some]
  exact run_undoPops hdangling

end Overflow

/-- The initial array of the push-down stack is moved by a push while a token
refers to one of its cells. -/
theorem run_moved :
    Start (unset 1024) ∧
      ¬ exists t, run (overflow 1024) (unset 1024) = some t ∧ t.Exactly := by
  constructor
  · exact unset_start 1024
  · rintro ⟨t, hrun, _⟩
    have hnone : run (overflow 1024) (unset 1024) = none := run_overflow
    rw [hnone] at hrun
    cases hrun

end Documents
end SciTECO
