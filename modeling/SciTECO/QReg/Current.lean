import Mathlib.Logic.Relation
import SciTECO.Error

/-!
# The currently edited Q-Register

`teco_qreg_current` is the register that is being edited, and
`teco_qreg_table_current` the table it was found in.  Both are set together,
but only the register is restored from the undo log.  Tables of local
registers live as long as the macro invocation they were made for.
-/

namespace SciTECO
namespace QReg

open Undoable

/-- Tables of registers.  Every macro invocation with local registers of its
own has a number; 0 is the top level. -/
inductive Table where
  | globals
  | locals (invocation : Nat)
deriving DecidableEq, Repr

/-- A register with the table that owns it. -/
structure Register where
  owner : Table
  name : String
deriving DecidableEq, Repr

/-- `teco_qreg_current` and `teco_qreg_table_current`, where `none` is `NULL`. -/
structure Editing where
  current : Option Register
  tableCurrent : Option Table
deriving DecidableEq, Repr

/-!
## Switching documents
-/

/-- `teco_undo_ptr(teco_qreg_current)`. -/
def undoCurrent : Exec Editing Unit := do
  let s <- get
  emit (fun t => { t with current := s.current })

/-- The part of `teco_ring_undo_edit()` that concerns registers. -/
def ringUndoEdit : Exec Editing Unit := undoCurrent

/-- The part of `teco_current_doc_undo_edit()` that concerns registers. -/
def currentDocUndoEdit : Exec Editing Unit := do
  let s <- get
  if s.current = none then
    ringUndoEdit
  else
    undoCurrent

/-- `teco_qreg_table_edit()`, once the register's `edit` method has succeeded. -/
def qregTableEdit (table : Table) (name : String) : Exec Editing Unit :=
  modify (fun _ =>
    { current := some { owner := table, name := name }
      tableCurrent := some table })

/-- `teco_ring_edit_by_name()` and `teco_ring_edit_by_id()`, up to the hook. -/
def ringEdit : Exec Editing Unit :=
  modify (fun _ => { current := none, tableCurrent := none })

/-!
## Runs

Macros are called by `M` and `EI` and as the hook `ED`.  With a colon, `M` and
`EI` share the local registers of the caller.
-/

inductive CallKind where
  | macroCall
  | indirect
  | edHook
deriving DecidableEq, Repr

/-- A macro invocation, with the number of its own table of local registers. -/
structure Frame where
  kind : CallKind
  locals : Option Nat
deriving DecidableEq, Repr

/-- `frames` are the running invocations, the innermost first.  `log` has the
undo tokens of every position of the command line, the latest first. -/
structure State where
  editing : Editing
  frames : List Frame
  invocations : Nat
  log : List (List (Editing -> Editing))

/-- Program start.  The first buffer is about to be opened. -/
def initial : State :=
  { editing := { current := none, tableCurrent := none }
    frames := []
    invocations := 0
    log := [] }

/-- `ctx->qreg_table_locals` of the innermost invocation. -/
def localsTable (frames : List Frame) : Table :=
  .locals ((frames.findSome? (fun frame => frame.locals)).getD 0)

/-- Perform an operation on the globals.  Its undo tokens belong to the latest
position of the command line; there is none in the profile. -/
def State.perform (s : State) (m : Exec Editing Unit) : State :=
  match m s.editing with
  | .ok _ editing tokens =>
      { s with
        editing := editing
        log := match s.log with
          | [] => []
          | group :: log => (tokens ++ group) :: log }
  | _ => s

inductive Event where
  /-- The next character of the command line is about to be executed. -/
  | nextPosition
  /-- `EQ` and `{` edit a register, which is local or global. -/
  | editQReg (isLocal : Bool) (name : String)
  /-- `EB`, `EF`, `nU*` and `?` edit a buffer. -/
  | editBuffer
  /-- Searches and `EF` change the buffer below, and commands may fail after
  they have registered their undo tokens. -/
  | undoEdit
  | call (kind : CallKind) (colon : Bool)
  /-- The innermost invocation succeeds. -/
  | leave
  /-- An error propagates to the command line or ends the program. -/
  | fail
  /-- The effects of the latest positions are taken back: by rubout, by command
  line replacement or after an error. -/
  | takeBack (positions : Nat)
deriving DecidableEq, Repr

/-- `teco_state_macro_got_register()` and `teco_ed_hook()` refuse to leave an
invocation whose own register is being edited.  `teco_state_indirect_done()`
does not. -/
def Frame.mayLeave (frame : Frame) (editing : Editing) : Bool :=
  match frame.kind, frame.locals with
  | .indirect, _ => true
  | _, none => true
  | _, some i => editing.tableCurrent != some (.locals i)

def step (s : State) : Event -> Option State
  | .nextPosition =>
      if s.frames = [] then some { s with log := [] :: s.log } else none
  | .editQReg isLocal name =>
      let table := if isLocal then localsTable s.frames else Table.globals
      some (s.perform (do
        currentDocUndoEdit
        qregTableEdit table name))
  | .editBuffer =>
      some (s.perform (do
        currentDocUndoEdit
        ringEdit))
  | .undoEdit => some (s.perform currentDocUndoEdit)
  | .call kind colon =>
      if colon ∧ kind ≠ .edHook then
        some { s with frames := { kind := kind, locals := none } :: s.frames }
      else
        some { s with
          frames :=
            { kind := kind, locals := some (s.invocations + 1) } :: s.frames
          invocations := s.invocations + 1 }
  | .leave =>
      match s.frames with
      | [] => none
      | frame :: frames =>
          if frame.mayLeave s.editing then
            some { s with frames := frames }
          else
            none
  | .fail => some { s with frames := [] }
  | .takeBack positions =>
      if s.frames = [] then
        some { s with
          editing := unwind (s.log.take positions).flatten s.editing
          log := s.log.drop positions }
      else
        none

def Steps (cond : Event -> State -> Prop) (s t : State) : Prop :=
  exists event, cond event s ∧ step s event = some t

def Reachable (cond : Event -> State -> Prop) : State -> Prop :=
  Relation.ReflTransGen (Steps cond) initial

/-!
## The invariant
-/

/-- The local registers of the top level and of the running invocations. -/
def Live (frames : List Frame) : Table -> Prop
  | .globals => True
  | .locals i => i = 0 ∨ exists frame, frame ∈ frames ∧ frame.locals = some i

/-- `teco_qreg_table_current` owns `teco_qreg_current`, both are `NULL`
together, and the table still exists. -/
structure Owned (s : State) : Prop where
  owner : s.editing.tableCurrent =
    s.editing.current.map (fun register => register.owner)
  live : forall table, s.editing.tableCurrent = some table ->
    Live s.frames table

/-- The undo tokens of the log leave `teco_qreg_table_current` alone. -/
def KeepsTable (log : List (List (Editing -> Editing))) : Prop :=
  forall group, group ∈ log -> forall token, token ∈ group ->
    forall t, (token t).tableCurrent = t.tableCurrent

theorem unwind_tableCurrent {tokens : List (Editing -> Editing)}
    (h : forall token, token ∈ tokens ->
      forall t, (token t).tableCurrent = t.tableCurrent) (s : Editing) :
    (unwind tokens s).tableCurrent = s.tableCurrent := by
  induction tokens generalizing s with
  | nil => rfl
  | cons token tokens ih =>
      rw [unwind_cons, ih (fun t ht => h t (List.mem_cons_of_mem _ ht))]
      exact h token List.mem_cons_self s

/-- The undo token of `teco_qreg_current`. -/
def restoreCurrent (s t : Editing) : Editing := { t with current := s.current }

theorem currentDocUndoEdit_run (s : Editing) :
    currentDocUndoEdit s = .ok () s [restoreCurrent s] := by
  cases hcurrent : s.current with
  | none =>
      have hs : s = { current := none, tableCurrent := s.tableCurrent } := by
        rw [<- hcurrent]
      rw [hs]
      rfl
  | some register =>
      have hs : s =
          { current := some register, tableCurrent := s.tableCurrent } := by
        rw [<- hcurrent]
      rw [hs]
      rfl

/-- What a switch to another document does to the globals. -/
theorem switch_run (s : Editing) {m : Exec Editing Unit}
    {switch : Editing -> Editing} (hm : m = modify switch) :
    (do currentDocUndoEdit; m : Exec Editing Unit) s =
      .ok () (switch s) [restoreCurrent s] := by
  subst hm
  change Undoable.bind currentDocUndoEdit (fun _ => modify switch) s = _
  unfold Undoable.bind
  rw [currentDocUndoEdit_run]
  rfl

theorem editQReg_run (s : Editing) (table : Table) (name : String) :
    (do currentDocUndoEdit; qregTableEdit table name : Exec Editing Unit) s =
      .ok ()
        { current := some { owner := table, name := name }
          tableCurrent := some table } [restoreCurrent s] :=
  switch_run s rfl

theorem editBuffer_run (s : Editing) :
    (do currentDocUndoEdit; ringEdit : Exec Editing Unit) s =
      .ok () { current := none, tableCurrent := none } [restoreCurrent s] :=
  switch_run s rfl

theorem KeepsTable.perform {s : State} {m : Exec Editing Unit}
    {editing : Editing} (hlog : KeepsTable s.log)
    (hrun : m s.editing = .ok () editing [restoreCurrent s.editing]) :
    KeepsTable (s.perform m).log ∧
      (s.perform m).editing = editing ∧
      (s.perform m).frames = s.frames := by
  have hperform : s.perform m =
      { s with
        editing := editing
        log := match s.log with
          | [] => []
          | group :: log =>
              ([restoreCurrent s.editing] ++ group) :: log } := by
    unfold State.perform
    rw [hrun]
  rw [hperform]
  refine ⟨?_, rfl, rfl⟩
  cases hcases : s.log with
  | nil =>
      intro group hgroup
      cases hgroup
  | cons first log =>
      rw [hcases] at hlog
      intro group hgroup token htoken t
      rcases List.mem_cons.mp hgroup with hfirst | hrest
      · subst hfirst
        rcases List.mem_cons.mp htoken with hnew | hold
        · subst hnew
          rfl
        · exact hlog first List.mem_cons_self token hold t
      · exact hlog group (List.mem_cons_of_mem _ hrest) token htoken t

theorem localsTable_live (frames : List Frame) :
    Live frames (localsTable frames) := by
  unfold localsTable
  cases hfind : frames.findSome? (fun frame => frame.locals) with
  | none => exact Or.inl rfl
  | some i =>
      right
      exact List.exists_of_findSome?_eq_some hfind

/-- Whether the table of the register that is being edited is kept by an
event.  Documents are only taken back to a register of the current table, and
no invocation ends while one of its own registers is being edited. -/
def KeepsOwner : Event -> State -> Prop
  | .takeBack positions, s =>
      (unwind (s.log.take positions).flatten s.editing).current.map
        (fun register => register.owner) = s.editing.tableCurrent
  | .leave, s =>
      forall frame i, s.frames.head? = some frame ->
        frame.kind = CallKind.indirect -> frame.locals = some i ->
          s.editing.tableCurrent ≠ some (.locals i)
  | .fail, s =>
      forall frame i, frame ∈ s.frames -> frame.locals = some i ->
        s.editing.tableCurrent ≠ some (.locals i)
  | _, _ => True

/-- Leaving an invocation keeps the tables of the others alive. -/
theorem Live.tail {frame : Frame} {frames : List Frame} {table : Table}
    (h : Live (frame :: frames) table)
    (hown : forall i, frame.locals = some i -> table ≠ .locals i) :
    Live frames table := by
  cases table with
  | globals => trivial
  | locals i =>
      rcases h with hzero | ⟨other, hother, hlocals⟩
      · exact Or.inl hzero
      · rcases List.mem_cons.mp hother with heq | hmem
        · subst heq
          exact absurd rfl (hown i hlocals)
        · exact Or.inr ⟨other, hmem, hlocals⟩

theorem Live.cons {frames : List Frame} {table : Table}
    (h : Live frames table) (frame : Frame) :
    Live (frame :: frames) table := by
  cases table with
  | globals => trivial
  | locals i =>
      rcases h with hzero | ⟨other, hother, hlocals⟩
      · exact Or.inl hzero
      · exact Or.inr ⟨other, List.mem_cons_of_mem _ hother, hlocals⟩

theorem Frame.mayLeave_own {frame : Frame} {editing : Editing} {i : Nat}
    (hkind : frame.kind ≠ CallKind.indirect) (hi : frame.locals = some i)
    (htable : editing.tableCurrent = some (.locals i)) :
    ¬ frame.mayLeave editing = true := by
  unfold Frame.mayLeave
  cases hk : frame.kind with
  | indirect => exact absurd hk hkind
  | macroCall => simp [hi, htable]
  | edHook => simp [hi, htable]

theorem step_owned {event : Event} {s t : State} (h : Owned s)
    (hlog : KeepsTable s.log) (hcond : KeepsOwner event s)
    (hstep : step s event = some t) : Owned t ∧ KeepsTable t.log := by
  cases event with
  | nextPosition =>
      simp only [step, Option.ite_none_right_eq_some] at hstep
      rcases hstep with ⟨_, ht⟩
      cases ht
      constructor
      · exact ⟨h.owner, h.live⟩
      · intro group hgroup
        rcases List.mem_cons.mp hgroup with hnew | hold
        · subst hnew
          intro token htoken
          cases htoken
        · exact hlog group hold
  | editQReg isLocal name =>
      cases hstep
      rcases hlog.perform (editQReg_run s.editing _ name) with
        ⟨hkeeps, hediting, hframes⟩
      refine ⟨⟨?_, ?_⟩, hkeeps⟩
      · rw [hediting]
        rfl
      · intro table htable
        rw [hediting] at htable
        cases htable
        rw [hframes]
        cases isLocal with
        | false => trivial
        | true => exact localsTable_live s.frames
  | editBuffer =>
      cases hstep
      rcases hlog.perform (editBuffer_run s.editing) with
        ⟨hkeeps, hediting, hframes⟩
      refine ⟨⟨?_, ?_⟩, hkeeps⟩
      · rw [hediting]
        rfl
      · intro table htable
        rw [hediting] at htable
        cases htable
  | undoEdit =>
      cases hstep
      rcases hlog.perform (currentDocUndoEdit_run s.editing) with
        ⟨hkeeps, hediting, hframes⟩
      refine ⟨⟨?_, ?_⟩, hkeeps⟩
      · rw [hediting]
        exact h.owner
      · rw [hediting, hframes]
        exact h.live
  | call kind colon =>
      have hframes : exists frame, t.frames = frame :: s.frames ∧
          t.editing = s.editing ∧ t.log = s.log := by
        simp only [step] at hstep
        split at hstep
        · cases hstep
          exact ⟨_, rfl, rfl, rfl⟩
        · cases hstep
          exact ⟨_, rfl, rfl, rfl⟩
      rcases hframes with ⟨frame, hcons, hediting, htlog⟩
      rw [htlog]
      refine ⟨⟨?_, ?_⟩, hlog⟩
      · rw [hediting]
        exact h.owner
      · intro table htable
        rw [hediting] at htable
        rw [hcons]
        exact (h.live table htable).cons frame
  | leave =>
      unfold step at hstep
      cases hframes : s.frames with
      | nil =>
          rw [hframes] at hstep
          cases hstep
      | cons frame frames =>
          rw [hframes] at hstep
          simp only [Option.ite_none_right_eq_some] at hstep
          rcases hstep with ⟨hmay, ht⟩
          cases ht
          refine ⟨⟨h.owner, ?_⟩, hlog⟩
          intro table htable
          have hlive := h.live table htable
          rw [hframes] at hlive
          apply hlive.tail
          intro i hi heq
          subst heq
          by_cases hkind : frame.kind = CallKind.indirect
          · exact hcond frame i (by rw [hframes]; rfl) hkind hi htable
          · exact frame.mayLeave_own hkind hi htable hmay
  | fail =>
      cases hstep
      refine ⟨⟨h.owner, ?_⟩, hlog⟩
      intro table htable
      cases table with
      | globals => trivial
      | locals i =>
          rcases h.live (.locals i) htable with hzero | ⟨frame, hmem, hi⟩
          · exact Or.inl hzero
          · exact absurd htable (hcond frame i hmem hi)
  | takeBack positions =>
      simp only [step, Option.ite_none_right_eq_some] at hstep
      rcases hstep with ⟨_, ht⟩
      cases ht
      have htokens : forall token,
          token ∈ (s.log.take positions).flatten ->
          forall e, (token e).tableCurrent = e.tableCurrent := by
        intro token htoken
        rcases List.mem_flatten.mp htoken with ⟨group, hgroup, hmem⟩
        exact hlog group (List.mem_of_mem_take hgroup) token hmem
      have htable := unwind_tableCurrent htokens s.editing
      constructor
      · constructor
        · exact htable.trans hcond.symm
        · intro table hcurrent
          exact h.live table (htable ▸ hcurrent)
      · intro group hgroup
        exact hlog group (List.mem_of_mem_drop hgroup)

theorem owned_initial : Owned initial := by
  constructor
  · rfl
  · intro table htable
    cases htable

/-- In every run that keeps the owner of the edited register,
`teco_qreg_table_current` is never stale. -/
theorem reachable_owned {s : State} (h : Reachable KeepsOwner s) : Owned s := by
  have hboth : Owned s ∧ KeepsTable s.log := by
    induction h with
    | refl =>
        constructor
        · exact owned_initial
        · intro group hgroup
          cases hgroup
    | tail _ hstep ih =>
        rcases hstep with ⟨event, hcond, hrun⟩
        exact step_owned ih.1 ih.2 hcond hrun
  exact hboth.1

/-- The register `b` is edited after the register `a` and is rubbed out. -/
theorem reachable_owned_rubout :
    Owned
      { editing :=
          { current := some { owner := .globals, name := "a" }
            tableCurrent := some .globals }
        frames := []
        invocations := 0
        log := [[restoreCurrent { current := none, tableCurrent := none }]] }
    := by
  apply reachable_owned
  have hstart : Reachable KeepsOwner initial := Relation.ReflTransGen.refl
  have hfirst := (hstart.tail ⟨.nextPosition, trivial, rfl⟩).tail
    ⟨.editQReg false "a", trivial, rfl⟩
  have hsecond := (hfirst.tail ⟨.nextPosition, trivial, rfl⟩).tail
    ⟨.editQReg false "b", trivial, rfl⟩
  exact hsecond.tail ⟨.takeBack 1, rfl, rfl⟩

/-- Rubbing out `EQa$` restores the buffer, but `teco_qreg_table_current` still
is the table of the register. -/
theorem reachable_stale :
    exists s, Reachable (fun _ _ => True) s ∧ ¬ Owned s := by
  refine ⟨{
      editing := { current := none, tableCurrent := some .globals }
      frames := []
      invocations := 0
      log := [] }, ?_, ?_⟩
  · have hstart : Reachable (fun _ _ => True) initial :=
      Relation.ReflTransGen.refl
    have hedit := (hstart.tail ⟨.nextPosition, trivial, rfl⟩).tail
      ⟨.editQReg false "a", trivial, rfl⟩
    exact hedit.tail ⟨.takeBack 1, trivial, rfl⟩
  · intro h
    have howner := h.owner
    cases howner

end QReg
end SciTECO
