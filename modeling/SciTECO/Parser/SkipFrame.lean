import SciTECO.Parser.Simulation

/-!
# Skipping code

A machine in a parse-only mode leaves the mode and the nesting alone, unless it
is at the start of a command or behind a `"`.
-/

namespace SciTECO
namespace Parser

open Undoable
open QReg (Table)

variable {W Reg : Type} {host : Host W Reg} {env : Env}

/-- What decides about the end of the skipped code. -/
structure Skip where
  mode : Mode
  nestLevel : Int
  label : Bytes
  insertLen : Nat
deriving DecidableEq, Repr

def State.skip (s : State W Reg) : Skip :=
  { mode := s.mode
    nestLevel := s.machine.nestLevel
    label := s.gotoSkipLabel
    insertLen := s.machine.expectstring.insertLen }

/-- Code is skipped, and no part of a string waits to be processed. -/
structure Skip.Quiet (k : Skip) : Prop where
  mode : k.mode ≠ Mode.normal
  insertLen : k.insertLen = 0

/-- Skipping code, the computation keeps the mode and the nesting. -/
def KeepsSkip {α : Type} (m : Exec (State W Reg) α) : Prop :=
  KeepsWhere Skip.Quiet State.skip m

/-!
## Parts of the state
-/

section Parts

variable {α : Type}

theorem keepsSkip_onExpr (m : Exec Expressions α) :
    Keeps State.skip (onExpr m : Exec (State W Reg) α) :=
  Keeps.zoom m (fun _ _ => rfl)

theorem keepsSkip_onHost (m : Exec (Command W) α) :
    Keeps State.skip (onHost m : Exec (State W Reg) α) :=
  Keeps.zoom m (fun _ _ => rfl)

theorem keepsSkip_editor (m : Exec (Editor W) α) :
    Keeps State.skip (zoom editorLens m : Exec (State W Reg) α) :=
  Keeps.zoom m (fun _ _ => rfl)

theorem keepsSkip_sb (m : Exec (SBScope W Reg) α) :
    Keeps State.skip (zoom sbLens m) :=
  Keeps.zoom m (fun _ _ => rfl)

theorem keepsSkip_interfaceMsg (severity : Severity) (text : Bytes) :
    Keeps State.skip
      (interfaceMsg severity text : Exec (State W Reg) Unit) :=
  Keeps.modify (fun _ => rfl)

theorem keepsSkip_undoFlags :
    Keeps State.skip (undoFlags env : Exec (State W Reg) Unit) := by
  apply Keeps.bind Keeps.get
  intro s
  exact keeps_undo _

theorem keepsSkip_evalColon :
    Keeps State.skip (evalColon env : Exec (State W Reg) Nat) := by
  apply Keeps.bind Keeps.get
  intro s
  apply Keeps.ite (Keeps.pure 0)
  apply Keeps.bind keepsSkip_undoFlags
  intro _
  apply Keeps.bind
  · exact Keeps.modify (fun _ => rfl)
  · intro _
    exact Keeps.pure _

theorem keepsSkip_evalAt :
    Keeps State.skip (evalAt env : Exec (State W Reg) Bool) := by
  apply Keeps.bind Keeps.get
  intro s
  apply Keeps.ite
  · apply Keeps.bind keepsSkip_undoFlags
    intro _
    apply Keeps.bind
    · exact Keeps.modify (fun _ => rfl)
    · intro _
      exact Keeps.pure _
  · exact Keeps.pure _

theorem keepsSkip_getMode :
    Keeps State.skip (getMode : Exec (State W Reg) Mode) := by
  apply Keeps.bind Keeps.get
  intro s
  exact Keeps.pure _

theorem keepsSkip_setCodepage (codepage : Nat) :
    Keeps State.skip
      (setCodepage env codepage : Exec (State W Reg) Unit) :=
  keepsSkip_sb _

theorem keepsSkip_setEscapeChar (chr : Gunichar) :
    Keeps State.skip
      (setEscapeChar env chr : Exec (State W Reg) Unit) :=
  keepsSkip_sb _

end Parts

/-!
## Q-Register arguments
-/

theorem keepsSkip_expectqregReset :
    Keeps State.skip (expectqregReset env : Exec (State W Reg) Unit) := by
  apply Keeps.bind Keeps.get
  intro s
  apply Keeps.bind (keeps_undo _)
  intro _
  exact Keeps.modify (fun _ => rfl)

theorem keepsSkip_hostGotRegister (cmd : QRegCommand) (qreg : Option Reg)
    (table : Table) (modifierAt : Bool) :
    Keeps State.skip (hostGotRegister host env cmd qreg table modifierAt) := by
  apply Keeps.bind keepsSkip_getMode
  intro mode
  exact Keeps.ite (Keeps.pure ()) (keepsSkip_onHost _)

theorem keepsSkip_gotRegister (cmd : QRegCommand) (qreg : Option Reg)
    (table : Table) :
    Keeps State.skip (gotRegister host env cmd qreg table) := by
  have hrest (next : MainState) :
      Keeps State.skip (do
        expectqregReset env
        hostGotRegister host env cmd qreg table false
        pure next) := by
    apply Keeps.bind keepsSkip_expectqregReset
    intro _
    apply Keeps.bind (keepsSkip_hostGotRegister _ _ _ _)
    intro _
    exact Keeps.pure _
  cases cmd with
  | eqcommand => exact Keeps.pure _
  | epctcommand => exact Keeps.pure _
  | ctlucommand => exact Keeps.pure _
  | eucommand => exact Keeps.pure _
  | egcommand => exact hrest _
  | copytoqreg =>
      apply Keeps.bind keepsSkip_expectqregReset
      intro _
      apply Keeps.bind keepsSkip_evalAt
      intro modifierAt
      apply Keeps.bind (keepsSkip_hostGotRegister _ _ _ _)
      intro _
      exact Keeps.pure _
  | pushqreg => exact hrest _
  | popqreg => exact hrest _
  | queryqreg => exact hrest _
  | getqregstring => exact hrest _
  | setqreginteger => exact hrest _
  | increaseqreg => exact hrest _
  | macroCall => exact hrest _
  | saveCmdline => exact hrest _

theorem keepsSkip_expectqregInput (cmd : QRegCommand) (chr : Gunichar) :
    Keeps State.skip (expectqregInput host env cmd chr) := by
  apply Keeps.bind Keeps.get
  intro s
  split
  · exact Keeps.fault _
  · apply Keeps.bind
    · exact Keeps.zoom _ (fun _ _ => rfl)
    · intro status
      split
      · exact Keeps.pure _
      · exact keepsSkip_gotRegister _ _ _

theorem keepsSkip_expectqregNew (type : QRegType) :
    Keeps State.skip (expectqregNew env host type) := by
  apply Keeps.bind Keeps.get
  intro s
  apply Keeps.bind
  · exact Keeps.modify (fun _ => rfl)
  · intro _
    exact keeps_undo _

theorem keepsSkip_expectqregInitial (cmd : QRegCommand) :
    Keeps State.skip (expectqregInitial env host cmd) := by
  apply Keeps.bind Keeps.get
  intro s
  split
  · exact keepsSkip_expectqregNew _
  · exact keepsSkip_expectqregNew _

theorem keepsSkip_expectqregResults :
    Keeps State.skip
      (expectqregResults : Exec (State W Reg) (Option Reg × Table)) := by
  apply Keeps.bind Keeps.get
  intro s
  split
  · exact Keeps.fault _
  · exact Keeps.pure _

/-!
## String arguments
-/

theorem keepsSkip_printStringInitial :
    Keeps State.skip (printStringInitial host env) := by
  apply Keeps.bind (keepsSkip_setEscapeChar _)
  intro _
  apply Keeps.bind keepsSkip_getMode
  intro mode
  apply Keeps.ite (Keeps.pure ())
  apply Keeps.bind keepsSkip_evalColon
  intro colon
  apply Keeps.bind Keeps.get
  intro s
  exact keepsSkip_setCodepage _

theorem keepsSkip_hostStringInitial (cmd : StringCommand) :
    Keeps State.skip (hostStringInitial host env cmd) := by
  apply Keeps.bind keepsSkip_getMode
  intro mode
  apply Keeps.ite (Keeps.pure ())
  apply Keeps.bind Keeps.get
  intro s
  apply Keeps.bind (keepsSkip_onHost _)
  intro codepage
  cases codepage with
  | none => exact keepsSkip_onHost _
  | some codepage =>
      apply Keeps.bind (keepsSkip_setCodepage _)
      intro _
      exact keepsSkip_onHost _

theorem keepsSkip_stringInitial (cmd : StringCommand) :
    Keeps State.skip (stringInitial host env cmd) := by
  unfold stringInitial
  split
  · exact keepsSkip_printStringInitial
  · exact Keeps.pure ()
  · apply Keeps.ite (keepsSkip_hostStringInitial _)
    apply Keeps.bind Keeps.get
    intro s
    exact Keeps.ite (keepsSkip_setCodepage _) (Keeps.pure ())

theorem keepsSkip_stringProcess (cmd : StringCommand) :
    Keeps State.skip (stringProcess host env cmd) := by
  apply Keeps.bind Keeps.get
  intro s
  apply Keeps.ite (Keeps.pure ())
  apply Keeps.ite
  · exact Keeps.ite (Keeps.fault _)
      (Keeps.ite (Keeps.throw _) (Keeps.pure ()))
  · exact Keeps.ite (keepsSkip_onHost _) (Keeps.pure ())

theorem keepsSkip_hostStringDone (cmd : StringCommand)
    (qreg : Option (Option Reg × Table)) (str : Bytes) :
    Keeps State.skip (hostStringDone host env cmd qreg str) := by
  apply Keeps.bind keepsSkip_getMode
  intro mode
  exact Keeps.ite (Keeps.pure ()) (keepsSkip_onHost _)

theorem keepsSkip_searchSucceeded :
    Keeps State.skip (searchSucceeded host) := by
  apply Keeps.bind Keeps.get
  intro s
  split
  · exact Keeps.fault _
  · apply Keeps.bind (keepsSkip_editor _)
    intro searchState
    exact Keeps.pure _

theorem keepsSkip_replaceDone (cmd found notFound : StringCommand)
    (str : Bytes) :
    Keeps State.skip (replaceDone host env cmd found notFound str) := by
  apply Keeps.bind keepsSkip_getMode
  intro mode
  apply Keeps.ite (Keeps.pure _)
  apply Keeps.bind (keepsSkip_hostStringDone _ _ _)
  intro _
  apply Keeps.bind keepsSkip_searchSucceeded
  intro success
  exact Keeps.pure _

theorem keepsSkip_replaceDefaultAllDone (str : Bytes) :
    Keeps State.skip (replaceDefaultAllDone host env str) := by
  apply Keeps.bind (keepsSkip_replaceDone _ _ _ _)
  intro next
  apply Keeps.bind keepsSkip_getMode
  intro mode
  apply Keeps.ite (Keeps.pure _)
  apply Keeps.bind (keepsSkip_onHost _)
  intro _
  exact Keeps.pure _

theorem keepsSkip_qregStringDone (cmd : StringCommand) (str : Bytes) :
    Keeps State.skip (qregStringDone host env cmd str) := by
  apply Keeps.bind keepsSkip_expectqregResults
  intro qreg
  apply Keeps.bind keepsSkip_expectqregReset
  intro _
  apply Keeps.bind (keepsSkip_hostStringDone _ _ _)
  intro _
  exact Keeps.pure _

theorem keepsSkip_stringDone {cmd : StringCommand} (str : Bytes)
    (hcmd : cmd ≠ StringCommand.goto) :
    Keeps State.skip (stringDone host env cmd str) := by
  have hdone (cmd : StringCommand) (next : MainState) :
      Keeps State.skip (do
        hostStringDone host env cmd none str
        pure next) := by
    apply Keeps.bind (keepsSkip_hostStringDone _ _ _)
    intro _
    exact Keeps.pure _
  unfold stringDone
  split
  · exact absurd rfl hcmd
  · apply Keeps.bind (keepsSkip_interfaceMsg _ _)
    intro _
    exact Keeps.pure _
  · exact Keeps.pure _
  · exact Keeps.ite (Keeps.pure _) (hdone _ _)
  · exact keepsSkip_replaceDone _ _ _ _
  · exact keepsSkip_replaceDone _ _ _ _
  · exact keepsSkip_replaceDefaultAllDone _
  · exact hdone _ _
  · exact hdone _ _
  · exact keepsSkip_qregStringDone _ _
  · exact keepsSkip_qregStringDone _ _
  · exact keepsSkip_qregStringDone _ _
  · exact keepsSkip_qregStringDone _ _
  · exact hdone _ _

/-- `O` looks for a label in normal mode only. -/
theorem keepsSkip_goto (str : Bytes) :
    KeepsSkip (stringDone host env StringCommand.goto str) := by
  intro s hs
  have hmode : s.mode ≠ Mode.normal := hs.mode
  unfold stringDone
  rw [wp_bind, wp_getMode, wp_ite, if_pos hmode]
  exact rfl

theorem keepsSkip_countNesting (chr : Gunichar) :
    Keeps State.skip (countNesting host env chr) := by
  apply Keeps.bind Keeps.get
  intro s
  apply Keeps.ite (Keeps.pure ())
  apply Keeps.bind (keeps_undo _)
  intro _
  exact Keeps.modify (fun _ => rfl)

/-- A computation drops the waiting part of a string. -/
def ClearsSkip {α : Type} (m : Exec (State W Reg) α) : Prop :=
  forall s, wp m (fun _ t => t.skip = { s.skip with insertLen := 0 })
    (fun _ _ => True) (fun _ => True) s

theorem ClearsSkip.bind {α β : Type} {m : Exec (State W Reg) α}
    {g : α -> Exec (State W Reg) β} (hm : Keeps State.skip m)
    (hg : forall a, ClearsSkip (g a)) : ClearsSkip (m >>= g) := by
  intro s
  rw [wp_bind]
  apply wp_call (hm s)
  intro a t ht
  rw [← ht]
  exact hg a t

theorem clearsSkip_resetString (cmd : StringCommand) :
    ClearsSkip (resetString env cmd : Exec (State W Reg) Unit) := by
  have hend (insertLen : Nat) : ClearsSkip (do
      undo env (State.mapString (fun e => { e with insertLen := insertLen }))
      modify (State.mapString (fun e => { e with insertLen := 0 })) :
      Exec (State W Reg) Unit) := by
    apply ClearsSkip.bind (keeps_undo _)
    intro _ s
    exact rfl
  have hrest (insertLen : Nat) : ClearsSkip (do
      modify (State.mapString (fun e => { e with nesting := 1 }))
      if cmd.stringBuilding then
        zoom sbLens (sbReset env)
      else
        pure ()
      undo env (State.mapString (fun e => { e with insertLen := insertLen }))
      modify (State.mapString (fun e => { e with insertLen := 0 })) :
      Exec (State W Reg) Unit) := by
    apply ClearsSkip.bind
    · exact Keeps.modify (fun _ => rfl)
    intro _
    cases cmd.stringBuilding with
    | true => exact ClearsSkip.bind (keepsSkip_sb _) (fun _ => hend _)
    | false => exact hend _
  apply ClearsSkip.bind Keeps.get
  intro s
  apply ClearsSkip.bind (keeps_undo _)
  intro _
  apply ClearsSkip.bind
  · exact Keeps.modify (fun _ => rfl)
  intro _
  cases cmd.last with
  | true => exact ClearsSkip.bind (keepsSkip_setEscapeChar _) (fun _ => hrest _)
  | false =>
      dsimp only [Bool.false_eq_true]
      rw [if_neg (by simp)]
      split
      · apply ClearsSkip.bind keepsSkip_undoFlags
        intro _
        apply ClearsSkip.bind
        · exact Keeps.modify (fun _ => rfl)
        intro _
        exact hrest _
      · exact hrest _

theorem keepsSkip_finishString (cmd : StringCommand) :
    KeepsSkip (finishString host env cmd) := by
  apply KeepsWhere.bind (KeepsWhere.of_keeps (keepsSkip_stringProcess _))
  intro _
  apply KeepsWhere.bind (KeepsWhere.of_keeps Keeps.get)
  intro u s hs
  have hdone (str : Bytes) : KeepsSkip (stringDone host env cmd str) := by
    by_cases hcmd : cmd = StringCommand.goto
    · rw [hcmd]
      exact keepsSkip_goto str
    · exact KeepsWhere.of_keeps (keepsSkip_stringDone str hcmd)
  rw [wp_ensuring]
  apply wp_mono (hdone _ s hs)
  · intro _ t ht
    apply wp_call (clearsSkip_resetString cmd t)
    intro _ v hv
    rw [hv, ht, ← show s.skip.insertLen = 0 from hs.insertLen]
  · intro _ _ _
    apply wp_of_forall
    · intro _ _
      trivial
    · intro _ _
      trivial
    · intro _
      trivial
  · intro _ h
    exact h

/-- Nothing is collected. -/
theorem keepsSkip_accumulateString (cmd : StringCommand) (chr : Gunichar) :
    KeepsSkip (accumulateString host env cmd chr) := by
  intro s hs
  have hmode : s.mode ≠ Mode.normal := hs.mode
  unfold accumulateString
  rw [wp_bind, wp_get]
  dsimp only
  simp only [wp_ite, wp_bind, wp_undo, wp_pure, wp_modify, wp_get,
    decide_eq_true_eq, if_neg hmode, wp_zoom]
  split
  · apply wp_of_forall
    · intro _ t
      simp [State.skip, State.mode, State.mapString, sbLens]
    · intro _ _
      trivial
    · intro _
      trivial
  · simp [State.skip, State.mode, State.mapString]

theorem keepsSkip_expectstringInput (cmd : StringCommand) (chr : Gunichar) :
    KeepsSkip (expectstringInput host env cmd chr) := by
  apply KeepsWhere.bind (KeepsWhere.of_keeps Keeps.get)
  intro s
  apply KeepsWhere.ite (KeepsWhere.of_keeps (Keeps.pure _))
  apply KeepsWhere.bind (KeepsWhere.of_keeps keepsSkip_evalAt)
  intro modifierAt
  apply KeepsWhere.ite
  · apply KeepsWhere.bind (KeepsWhere.of_keeps (keepsSkip_setEscapeChar _))
    intro _
    exact KeepsWhere.of_keeps (Keeps.pure _)
  · apply KeepsWhere.bind (KeepsWhere.of_keeps (keepsSkip_countNesting _))
    intro _
    apply KeepsWhere.bind (KeepsWhere.of_keeps Keeps.get)
    intro t
    exact KeepsWhere.ite (keepsSkip_finishString _)
      (keepsSkip_accumulateString _ _)

/-!
## Entering states
-/

theorem keepsSkip_print (radix : Nat) :
    Keeps State.skip (print env radix : Exec (State W Reg) Unit) := by
  apply Keeps.bind (keepsSkip_onExpr _)
  intro _
  apply Keeps.bind Keeps.get
  intro s
  apply Keeps.ite (Keeps.throw _)
  split
  · exact Keeps.fault _
  · apply Keeps.bind keepsSkip_evalColon
    intro colon
    exact keepsSkip_interfaceMsg _ _

theorem keepsSkip_printInitial (radix : Nat) :
    Keeps State.skip
      (printInitial env radix : Exec (State W Reg) Unit) := by
  apply Keeps.bind Keeps.get
  intro s
  apply Keeps.ite (Keeps.pure ())
  apply Keeps.bind
  · exact Keeps.modify (fun _ => rfl)
  intro _
  exact Keeps.ite (keepsSkip_print radix) (Keeps.pure ())

theorem keepsSkip_stateInitial (state : MainState) :
    Keeps State.skip (stateInitial host env state) := by
  unfold stateInitial
  split
  · exact Keeps.ite (Keeps.throw _) (Keeps.pure ())
  · exact keepsSkip_printInitial _
  · exact keepsSkip_printInitial _
  · exact keepsSkip_expectqregInitial _
  · exact keepsSkip_stringInitial _
  · exact Keeps.pure ()

theorem keepsSkip_enterState (next : MainState) :
    Keeps State.skip (enterState host env next) := by
  apply Keeps.bind Keeps.get
  intro s
  apply Keeps.ite (Keeps.pure ())
  apply Keeps.bind (keeps_undo _)
  intro _
  apply Keeps.bind
  · exact Keeps.modify (fun _ => rfl)
  intro _
  exact keepsSkip_stateInitial _

/-!
## Labels
-/

/-- The end of the search for a label. -/
def Skip.found (k : Skip) : Skip :=
  { k with mode := Mode.normal, label := [] }

/-- A label is entered into the table, and may be the one looked for. -/
theorem wp_labelDone_skip {s : State W Reg} :
    wp (labelDone env)
      (fun _ t => t.skip = s.skip ∨
        s.gotoSkipLabel ≠ [] ∧ t.skip = s.skip.found)
      (fun _ _ => True) (fun _ => True) s := by
  unfold labelDone
  rw [wp_bind, wp_get]
  dsimp only
  split
  · simp only [wp_bind, wp_modify, wp_undo, wp_ite, wp_setMode, wp_pure]
    split
    case isTrue hfound =>
        right
        refine ⟨hfound.1, ?_⟩
        rfl
    case isFalse =>
        left
        rfl
  · rw [wp_ite]
    split
    · exact Or.inl rfl
    · exact Or.inl rfl

theorem wp_labelInput_skip {s : State W Reg} (chr : Gunichar) :
    wp (labelInput env chr)
      (fun _ t => t.skip = s.skip ∨
        s.gotoSkipLabel ≠ [] ∧ t.skip = s.skip.found)
      (fun _ _ => True) (fun _ => True) s := by
  unfold labelInput
  simp only [wp_bind, wp_get, wp_ite, wp_pure, wp_undo, wp_modify]
  split
  · exact Or.inl trivial
  · split
    · exact Or.inl trivial
    · split
      · apply wp_call wp_labelDone_skip
        intro _ t ht
        exact ht
      · exact Or.inl rfl

/-!
## Commands
-/

/-- The end of a construct. -/
def Skip.leave (k : Skip) : Skip :=
  if k.nestLevel = 0 then { k with mode := Mode.normal }
  else { k with nestLevel := k.nestLevel - 1 }

/-- What a character does at the start of a command. -/
def Skip.command (k : Skip) (chr : Gunichar) : Skip :=
  match ascii chr with
  | some '<' =>
      if k.mode = Mode.parseOnlyLoop then
        { k with nestLevel := k.nestLevel + 1 }
      else k
  | some '>' => if k.mode = Mode.parseOnlyLoop then k.leave else k
  | some '|' =>
      if k.mode = Mode.parseOnlyCond ∧ k.nestLevel = 0 then
        { k with mode := Mode.normal }
      else k
  | some '\'' =>
      if k.mode = Mode.parseOnlyCond ∨ k.mode = Mode.parseOnlyCondForce then
        k.leave
      else k
  | _ => k

def delimiters : List Char := ['<', '>', '|', '\'']

theorem Skip.command_same {k : Skip} {chr : Gunichar}
    (h : forall c, c ∈ delimiters -> ascii chr ≠ some c) :
    k.command chr = k := by
  unfold Skip.command
  split
  case h_1 heq => exact absurd heq (h _ (by decide))
  case h_2 heq => exact absurd heq (h _ (by decide))
  case h_3 heq => exact absurd heq (h _ (by decide))
  case h_4 heq => exact absurd heq (h _ (by decide))
  case h_5 => rfl

theorem not_delimiter {p : Gunichar -> Bool} {chr : Gunichar}
    (hp : delimiters.all (fun c => !p c.toNat) = true) (h : p chr = true) :
    forall c, c ∈ delimiters -> ascii chr ≠ some c := by
  intro c hc heq
  have hnot := List.all_eq_true.mp hp c hc
  rw [← ascii_eq heq, h] at hnot
  cases hnot

theorem wp_unmodified_skip {s : State W Reg} {k : Skip}
    {action : Exec (State W Reg) Unit} (chr : Gunichar)
    (h : wp action (fun _ t => t.skip = k) (fun _ _ => True)
      (fun _ => True) s) :
    wp (unmodified chr action) (fun _ t => t.skip = k) (fun _ _ => True)
      (fun _ => True) s := by
  unfold unmodified
  rw [wp_bind, wp_get, wp_ite]
  split
  · trivial
  · rw [wp_bind]
    exact h

theorem keepsSkip_digit (chr : Gunichar) :
    Keeps State.skip (digit host env chr) := by
  apply Keeps.bind Keeps.get
  intro s
  exact Keeps.ite (keepsSkip_onExpr _) (Keeps.pure ())

theorem keepsSkip_wordCommand (cmd : Bool -> EditorCommand) :
    Keeps State.skip (wordCommand host env cmd) := by
  apply Keeps.bind keepsSkip_evalAt
  intro modifierAt
  apply Keeps.bind keepsSkip_getMode
  intro mode
  apply Keeps.ite (Keeps.pure _)
  apply Keeps.bind (keepsSkip_onHost _)
  intro _
  exact Keeps.pure _

theorem keepsSkip_atModifier (chr : Gunichar) :
    Keeps State.skip
      (atModifier env chr : Exec (State W Reg) MainState) := by
  apply Keeps.bind Keeps.get
  intro s
  apply Keeps.ite (Keeps.throw _)
  apply Keeps.bind keepsSkip_undoFlags
  intro _
  apply Keeps.bind
  · exact Keeps.modify (fun _ => rfl)
  intro _
  exact Keeps.pure _

theorem keepsSkip_colonModifier (chr : Gunichar) :
    Keeps State.skip
      (colonModifier env chr : Exec (State W Reg) MainState) := by
  apply Keeps.bind Keeps.get
  intro s
  apply Keeps.ite (Keeps.pure _)
  apply Keeps.ite (Keeps.throw _)
  apply Keeps.bind keepsSkip_undoFlags
  intro _
  apply Keeps.bind
  · exact Keeps.modify (fun _ => rfl)
  intro _
  exact Keeps.pure _

theorem wp_condElse_skip {s : State W Reg} (hs : s.skip.Quiet) :
    wp (condElse env)
      (fun _ t => t.skip = s.skip.command '|'.toNat) (fun _ _ => True)
      (fun _ => True) s := by
  have hmode : s.mode ≠ Mode.normal := hs.mode
  have hcommand : s.skip.command '|'.toNat =
      if s.mode = Mode.parseOnlyCond ∧ s.machine.nestLevel = 0 then
        { s.skip with mode := Mode.normal }
      else s.skip := rfl
  unfold condElse
  rw [hcommand]
  simp only [wp_bind, wp_get, wp_undoFlags, wp_ite, wp_modify, wp_pure,
    if_neg hmode]
  split
  · rfl
  · rfl

theorem wp_condEnd_skip {s : State W Reg} :
    wp (condEnd env)
      (fun _ t => t.skip = s.skip.command '\''.toNat) (fun _ _ => True)
      (fun _ => True) s := by
  have hcommand : s.skip.command '\''.toNat =
      if s.mode = Mode.parseOnlyCond ∨ s.mode = Mode.parseOnlyCondForce then
        s.skip.leave
      else s.skip := rfl
  unfold condEnd
  rw [hcommand]
  simp only [wp_bind, wp_get, wp_setMode, wp_addNestLevel, wp_ite, wp_pure]
  split
  · unfold Skip.leave
    rw [show s.skip.nestLevel = s.machine.nestLevel from rfl]
    split
    · rfl
    · rfl
  · rfl

theorem wp_skipLoopClose_skip {s : State W Reg}
    (hmode : s.mode = Mode.parseOnlyLoop) :
    wp (skipLoopClose env)
      (fun _ t => t.skip = s.skip.command '>'.toNat) (fun _ _ => True)
      (fun _ => True) s := by
  have hcommand : s.skip.command '>'.toNat = s.skip.leave := if_pos hmode
  unfold skipLoopClose
  rw [hcommand]
  simp only [wp_bind, wp_get, wp_setMode, wp_addNestLevel, wp_ite, wp_pure]
  unfold Skip.leave
  rw [show s.skip.nestLevel = s.machine.nestLevel from rfl]
  split
  · rfl
  · rfl

variable [DecidableEq Reg]

/-- No callback is called. -/
theorem keepsSkip_transitionInput (transitions : Char -> Option Transition)
    (chr : Gunichar) :
    KeepsSkip (transitionInput host env transitions chr) := by
  intro s hs
  have hmode : s.mode ≠ Mode.normal := hs.mode
  unfold transitionInput
  rw [wp_bind, wp_get]
  split
  · trivial
  · rw [wp_ite]
    split
    · trivial
    · split
      · exact rfl
      · exact rfl

/-- The first character of a command. -/
theorem wp_startInput_skip {s : State W Reg} (chr : Gunichar)
    (hs : s.skip.Quiet) :
    wp (startInput host env chr) (fun _ t => t.skip = s.skip.command chr)
      (fun _ _ => True) (fun _ => True) s := by
  unfold startInput
  rw [wp_bind, wp_get]
  by_cases hnoop : isNoop chr = true
  · rw [if_pos hnoop, Skip.command_same (not_delimiter (by decide) hnoop)]
    exact wp_unmodified_skip chr rfl
  by_cases hdigit : '0'.toNat <= chr ∧ chr <= '9'.toNat
  · have hnot := @not_delimiter
      (fun chr => decide ('0'.toNat <= chr ∧ chr <= '9'.toNat)) chr (by decide)
      (decide_eq_true hdigit)
    rw [if_neg hnoop, if_pos hdigit, Skip.command_same hnot]
    exact wp_unmodified_skip chr (keepsSkip_digit chr s)
  rw [if_neg hnoop, if_neg hdigit]
  have hother {c : Char} (hc : ascii chr = some c) (hnot : c ∉ delimiters)
      {m : Exec (State W Reg) MainState} (hm : KeepsSkip m) :
      wp m (fun _ t => t.skip = s.skip.command chr) (fun _ _ => True)
        (fun _ => True) s := by
    rw [Skip.command_same]
    · exact hm s hs
    · intro c' hc' heq
      rw [hc] at heq
      cases heq
      exact hnot hc'
  split
  case h_1 heq =>
      apply hother heq (by decide)
      apply KeepsWhere.ite (KeepsWhere.of_keeps (Keeps.pure _))
      exact keepsSkip_transitionInput _ _
  case h_2 heq =>
      rw [ascii_eq heq, wp_ite]
      split
      · trivial
      · rw [wp_ite]
        split
        case isTrue hloop =>
            have hcommand : s.skip.command '<'.toNat =
                { s.skip with nestLevel := s.skip.nestLevel + 1 } :=
              if_pos hloop
            rw [hcommand]
            unfold skipLoopOpen
            rw [wp_bind, wp_addNestLevel, wp_pure]
            rfl
        case isFalse hloop =>
            have hcommand : s.skip.command '<'.toNat = s.skip :=
              if_neg hloop
            rw [hcommand]
            exact keepsSkip_transitionInput _ _ s hs
  case h_3 heq =>
      rw [ascii_eq heq, wp_ite]
      split
      · trivial
      · rw [wp_ite]
        split
        case isTrue hloop => exact wp_skipLoopClose_skip hloop
        case isFalse hloop =>
            have hcommand : s.skip.command '>'.toNat = s.skip :=
              if_neg hloop
            rw [hcommand]
            exact keepsSkip_transitionInput _ _ s hs
  case h_4 heq =>
      rw [ascii_eq heq]
      exact wp_unmodified_skip _ (wp_condElse_skip hs)
  case h_5 heq =>
      rw [ascii_eq heq]
      exact wp_unmodified_skip _ wp_condEnd_skip
  case h_6 heq =>
      exact hother heq (by decide)
        (KeepsWhere.of_keeps (keepsSkip_wordCommand _))
  case h_7 heq =>
      exact hother heq (by decide)
        (KeepsWhere.of_keeps (keepsSkip_wordCommand _))
  case h_8 heq =>
      exact hother heq (by decide)
        (KeepsWhere.of_keeps (keepsSkip_wordCommand _))
  case h_9 heq =>
      exact hother heq (by decide)
        (KeepsWhere.of_keeps (keepsSkip_wordCommand _))
  case h_10 heq =>
      exact hother heq (by decide)
        (KeepsWhere.of_keeps (keepsSkip_wordCommand _))
  case h_11 heq =>
      exact hother heq (by decide)
        (KeepsWhere.of_keeps (keepsSkip_wordCommand _))
  case h_12 heq =>
      exact hother heq (by decide)
        (KeepsWhere.of_keeps (keepsSkip_wordCommand _))
  case h_13 heq =>
      exact hother heq (by decide)
        (KeepsWhere.of_keeps (keepsSkip_wordCommand _))
  case h_14 heq =>
      exact hother heq (by decide)
        (KeepsWhere.of_keeps (keepsSkip_atModifier _))
  case h_15 heq =>
      exact hother heq (by decide)
        (KeepsWhere.of_keeps (keepsSkip_colonModifier _))
  case h_16 hstar hopen hclose helse hend _ _ _ _ _ _ _ _ _ _ =>
      have hnot : forall c, c ∈ delimiters -> ascii chr ≠ some c := by
        intro c hc heq
        simp only [delimiters, List.mem_cons, List.not_mem_nil, or_false] at hc
        rcases hc with rfl | rfl | rfl | rfl
        · exact hopen heq
        · exact hclose heq
        · exact helse heq
        · exact hend heq
      rw [Skip.command_same hnot]
      have hrest : KeepsSkip (if isCtl chr then
          controlInput host env (ctlEcho chr)
        else startTransition host env chr) :=
        KeepsWhere.ite (keepsSkip_transitionInput _ _)
          (keepsSkip_transitionInput _ _)
      exact hrest s hs

/-!
## All states
-/

/-- Whether the character is read as the first one of a command. -/
def MainState.startsCommand (current : MainState) (chr : Gunichar) : Bool :=
  match current with
  | .start => true
  | .escape => chr != 0x1B && chr != '$'.toNat
  | .ctlc => chr != ctlKey 'C'.toNat && chr != '^'.toNat
  | .printDecimal => chr != '='.toNat
  | .printOctal => chr != '='.toNat
  | _ => false

/-- What a character does. -/
def Skip.step (k : Skip) (current : MainState) (chr : Gunichar) : Skip :=
  if current.startsCommand chr then k.command chr
  else if current = MainState.condcommand ∧
      (k.mode = Mode.parseOnlyCond ∨ k.mode = Mode.parseOnlyCondForce) then
    { k with nestLevel := k.nestLevel + 1 }
  else k

theorem Skip.step_command {k : Skip} {current : MainState} {chr : Gunichar}
    (h : current.startsCommand chr = true) :
    k.step current chr = k.command chr := if_pos h

theorem Skip.step_same {k : Skip} {current : MainState} {chr : Gunichar}
    (h : current.startsCommand chr = false)
    (hne : current ≠ MainState.condcommand) : k.step current chr = k := by
  unfold Skip.step
  rw [h, if_neg (by simp), if_neg (fun hcond => hne hcond.1)]

omit [DecidableEq Reg] in
theorem wp_condcommandInput_skip {s : State W Reg} (chr : Gunichar)
    (hs : s.skip.Quiet) :
    wp (condcommandInput host env chr)
      (fun _ t => t.skip = s.skip.step MainState.condcommand chr)
      (fun _ _ => True) (fun _ => True) s := by
  have hmode : s.mode ≠ Mode.normal := hs.mode
  have hcommand : MainState.condcommand.startsCommand chr = false := rfl
  unfold condcommandInput Skip.step
  rw [hcommand, if_neg (by simp)]
  simp only [wp_bind, wp_get, wp_ite, if_neg hmode, wp_addNestLevel, true_and]
  split
  case isTrue hcond =>
      rw [if_pos (show s.skip.mode = _ ∨ s.skip.mode = _ from hcond)]
      split
      · trivial
      · rfl
  case isFalse hcond =>
      rw [if_neg (show ¬(s.skip.mode = _ ∨ s.skip.mode = _) from hcond)]
      split
      · trivial
      · rfl

theorem wp_escapeInput_skip {s : State W Reg} (chr : Gunichar)
    (hs : s.skip.Quiet) :
    wp (escapeInput host env chr)
      (fun _ t => t.skip = s.skip.step MainState.escape chr)
      (fun _ _ => True) (fun _ => True) s := by
  have hmode : s.mode ≠ Mode.normal := hs.mode
  unfold escapeInput
  simp only [wp_bind, wp_get, wp_ite, if_neg hmode]
  split
  case isTrue hchr =>
      rw [wp_pure, Skip.step_same _ (by simp)]
      rcases hchr with rfl | rfl
      · decide
      · decide
  case isFalse hchr =>
      rw [Skip.step_command]
      · exact wp_startInput_skip chr hs
      · simpa [MainState.startsCommand] using hchr

theorem wp_ctlcInput_skip {s : State W Reg} (chr : Gunichar)
    (hs : s.skip.Quiet) :
    wp (ctlcInput host env chr)
      (fun _ t => t.skip = s.skip.step MainState.ctlc chr)
      (fun _ _ => True) (fun _ => True) s := by
  have hmode : s.mode ≠ Mode.normal := hs.mode
  unfold ctlcInput
  rw [wp_bind, wp_get, wp_ite]
  split
  case isTrue hchr =>
      rw [Skip.step_same (by rw [hchr]; decide) (by simp)]
      unfold ctlcControlInput
      rw [wp_bind, wp_get, wp_ite, if_pos (.inr rfl), wp_ite, if_pos hmode]
      exact rfl
  case isFalse hctlc =>
      rw [wp_ite]
      split
      case isTrue hchr =>
          rw [Skip.step_same (by rw [hchr]; decide) (by simp)]
          exact rfl
      case isFalse hcaret =>
          rw [Skip.step_command]
          · exact wp_startInput_skip chr hs
          · simpa [MainState.startsCommand] using And.intro hctlc hcaret

theorem wp_printDeferred_skip {s : State W Reg} (radix : Nat)
    (chr : Gunichar) (hs : s.skip.Quiet) :
    wp (do printDeferred env radix; startInput host env chr)
      (fun _ t => t.skip = s.skip.command chr)
      (fun _ _ => True) (fun _ => True) s := by
  have hmode : s.mode ≠ Mode.normal := hs.mode
  unfold printDeferred
  simp only [wp_bind, wp_get, wp_ite, if_neg hmode, wp_pure]
  exact wp_startInput_skip chr hs

/-- A character has been read.  It may end the search for a label. -/
def Skip.Reads (k : Skip) (current : MainState) (chr : Gunichar)
    (next : Skip) : Prop :=
  next = k.step current chr ∨ k.label ≠ [] ∧ next = k.found

/-- A character read in any state. -/
theorem wp_stateInput_skip {s : State W Reg} (current : MainState)
    (chr : Gunichar) (hs : s.skip.Quiet) :
    wp (stateInput host env current chr)
      (fun _ t => s.skip.Reads current chr t.skip)
      (fun _ _ => True) (fun _ => True) s := by
  have hmode : s.mode ≠ Mode.normal := hs.mode
  have hstep {m : Exec (State W Reg) MainState}
      (hm : wp m (fun _ t => t.skip = s.skip.step current chr)
        (fun _ _ => True) (fun _ => True) s) :
      wp m (fun _ t => s.skip.Reads current chr t.skip) (fun _ _ => True)
        (fun _ => True) s := by
    apply wp_call hm
    intro _ t ht
    exact Or.inl ht
  cases current with
  | start => exact hstep (wp_startInput_skip chr hs)
  | fcommand => exact hstep (keepsSkip_transitionInput _ _ s hs)
  | condcommand => exact hstep (wp_condcommandInput_skip chr hs)
  | control => exact hstep (keepsSkip_transitionInput _ _ s hs)
  | ascii =>
      apply hstep
      change wp (asciiInput chr) _ _ _ _
      unfold asciiInput
      rw [wp_bind, wp_get, wp_ite, if_neg hmode]
      exact rfl
  | escape => exact hstep (wp_escapeInput_skip chr hs)
  | ctlc => exact hstep (wp_ctlcInput_skip chr hs)
  | ctlcControl =>
      apply hstep
      change wp (ctlcControlInput host env chr) _ _ _ _
      unfold ctlcControlInput
      rw [wp_bind, wp_get, wp_ite]
      split
      · exact rfl
      · exact keepsSkip_transitionInput _ _ s hs
  | ecommand => exact hstep (keepsSkip_transitionInput _ _ s hs)
  | label => exact wp_labelInput_skip chr
  | blockcomment => exact Or.inl rfl
  | blockcommentStar => exact Or.inl rfl
  | eolcomment => exact Or.inl rfl
  | printDecimal =>
      apply hstep
      change wp (printDecimalInput host env chr) _ _ _ _
      unfold printDecimalInput
      rw [wp_ite]
      split
      case isTrue hchr =>
          rw [Skip.step_same (by rw [hchr]; decide) (by simp)]
          exact rfl
      case isFalse hchr =>
          rw [Skip.step_command
            (by simpa [MainState.startsCommand] using hchr)]
          exact wp_printDeferred_skip 10 chr hs
  | printOctal =>
      apply hstep
      change wp (printOctalInput host env chr) _ _ _ _
      unfold printOctalInput
      rw [wp_bind, wp_get, wp_ite]
      split
      case isTrue hchr =>
          rw [Skip.step_same (by rw [hchr]; decide) (by simp)]
          exact rfl
      case isFalse hchr =>
          rw [Skip.step_command
            (by simpa [MainState.startsCommand] using hchr)]
          exact wp_printDeferred_skip 8 chr hs
  | expectqreg cmd =>
      exact hstep
        (KeepsWhere.of_keeps (keepsSkip_expectqregInput cmd chr) s hs)
  | expectstring cmd =>
      exact hstep (keepsSkip_expectstringInput cmd chr s hs)

theorem wp_machineInput_skip {s : State W Reg} (chr : Gunichar)
    (hs : s.skip.Quiet) :
    wp (machineInput host env chr)
      (fun _ t => s.skip.Reads s.machine.current chr t.skip)
      (fun _ _ => True) (fun _ => True) s := by
  unfold machineInput
  rw [wp_bind, wp_get, wp_bind]
  apply wp_call (wp_stateInput_skip s.machine.current chr hs)
  intro next t ht
  apply wp_call (keepsSkip_enterState next t)
  intro _ u hu
  rw [hu]
  exact ht

end Parser
end SciTECO
