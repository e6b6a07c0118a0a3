import SciTECO.Parser.Frame
import SciTECO.Parser.Invocation

/-!
# Where the execution goes on

Most of what a machine does leaves alone at which position it is, where its
loops begin and which labels it knows.
-/

namespace SciTECO
namespace Parser

open Undoable
open QReg (Table)

variable {W Reg : Type} {host : Host W Reg} {env : Env}

/-- What decides where the execution goes on. -/
structure Flow where
  pc : Nat
  loops : List LoopContext
  fp : Nat
  labels : List (Bytes × Nat)
  complete : Bool
  name : Bytes
  wanted : Bytes
  backup : Option Nat

def State.flow (s : State W Reg) : Flow :=
  { pc := s.machine.macroPc
    loops := s.editor.loopStack
    fp := s.machine.loopStackFp
    labels := s.machine.gotoTable
    complete := s.machine.gotoComplete
    name := s.machine.gotoLabel
    wanted := s.gotoSkipLabel
    backup := s.gotoBackupPc }

/-!
## Parts of the state
-/

section Parts

variable {α : Type}

theorem keepsFlow_onExpr (m : Exec Expressions α) :
    Keeps State.flow (onExpr m : Exec (State W Reg) α) :=
  Keeps.zoom m (fun _ _ => rfl)

/-- Work on the editor next to a part of the machine. -/
theorem keepsFlow_scope {σ : Type} {l : Lens (State W Reg) (σ × Editor W)}
    {m : Exec (σ × Editor W) α} (h : Quiet (besides Editor.loops) m)
    (hset : forall t s, (l.set t s).flow =
      { s.flow with loops := t.2.loopStack })
    (hget : forall s, (l.get s).2 = s.editor) :
    Keeps State.flow (zoom l m) := by
  intro s
  rw [wp_zoom]
  unfold wp
  cases hrun : m (l.get s) with
  | ok a t tokens =>
      have hloops : t.2.loopStack = (l.get s).2.loopStack :=
        ((h _).ok hrun).state
      dsimp only
      rw [hset, hloops, hget]
      rfl
  | error e t tokens => trivial
  | fault c => trivial

theorem keepsFlow_sb {m : Exec (SBScope W Reg) α}
    (h : Quiet (besides Editor.loops) m) :
    Keeps State.flow (zoom sbLens m) :=
  keepsFlow_scope h (fun _ _ => rfl) (fun _ => rfl)

theorem keepsFlow_expectqreg {spec : QRegSpec Reg}
    {m : Exec (SpecScope W Reg) α} (h : Quiet (besides Editor.loops) m) :
    Keeps State.flow (zoom (expectqregLens spec) m) :=
  keepsFlow_scope h (fun _ _ => rfl) (fun _ => rfl)

theorem keepsFlow_editor {m : Exec (Editor W) α}
    (h : Quiet Editor.loops m) :
    Keeps State.flow (zoom editorLens m : Exec (State W Reg) α) := by
  intro s
  rw [wp_zoom]
  unfold wp
  cases hrun : m (editorLens.get s) with
  | ok a t tokens =>
      have hloops : t.loopStack = s.editor.loopStack :=
        ((h s.editor).ok hrun).state
      show State.flow { s with editor := t } = s.flow
      unfold State.flow
      dsimp only
      rw [hloops]
  | error e t tokens => trivial
  | fault c => trivial

/-- A command of the host leaves no loops on the stack. -/
theorem keepsFlow_onHost {m : Exec (Command W) α}
    (h : forall c, Parser.Nests False m c) :
    Keeps State.flow (onHost m : Exec (State W Reg) α) := by
  intro s
  show wp (zoom commandLens m) _ _ _ s
  rw [wp_zoom]
  unfold wp
  cases hrun : m (commandLens.get s) with
  | ok a d tokens =>
      have hloops : d.editor.loopStack = s.editor.loopStack :=
        (h _).returns a d tokens hrun
      show State.flow (commandLens.set d s) = s.flow
      unfold State.flow commandLens
      dsimp only
      rw [hloops]
  | error e t tokens => trivial
  | fault c => trivial

theorem keepsFlow_interfaceMsg (severity : Severity) (text : Bytes) :
    Keeps State.flow
      (interfaceMsg severity text : Exec (State W Reg) Unit) :=
  Keeps.modify (fun _ => rfl)

theorem keepsFlow_undoFlags :
    Keeps State.flow (undoFlags env : Exec (State W Reg) Unit) := by
  apply Keeps.bind Keeps.get
  intro s
  exact keeps_undo _

theorem keepsFlow_mapFlags (f : Flags -> Flags) :
    Keeps State.flow
      (modify (State.mapFlags f) : Exec (State W Reg) Unit) :=
  Keeps.modify (fun _ => rfl)

theorem keepsFlow_mapString (f : ExpectString Reg -> ExpectString Reg) :
    Keeps State.flow
      (modify (State.mapString f) : Exec (State W Reg) Unit) :=
  Keeps.modify (fun _ => rfl)

theorem keepsFlow_setMode (mode : Mode) :
    Keeps State.flow (setMode env mode : Exec (State W Reg) Unit) := by
  apply Keeps.bind keepsFlow_undoFlags
  intro _
  exact keepsFlow_mapFlags _

theorem keepsFlow_evalColon :
    Keeps State.flow (evalColon env : Exec (State W Reg) Nat) := by
  apply Keeps.bind Keeps.get
  intro s
  apply Keeps.ite (Keeps.pure 0)
  apply Keeps.bind keepsFlow_undoFlags
  intro _
  apply Keeps.bind (keepsFlow_mapFlags _)
  intro _
  exact Keeps.pure _

theorem keepsFlow_evalAt :
    Keeps State.flow (evalAt env : Exec (State W Reg) Bool) := by
  apply Keeps.bind Keeps.get
  intro s
  apply Keeps.ite
  · apply Keeps.bind keepsFlow_undoFlags
    intro _
    apply Keeps.bind (keepsFlow_mapFlags _)
    intro _
    exact Keeps.pure _
  · exact Keeps.pure _

theorem keepsFlow_addNestLevel (change : Int) :
    Keeps State.flow
      (addNestLevel env change : Exec (State W Reg) Unit) := by
  apply Keeps.bind Keeps.get
  intro s
  apply Keeps.bind (keeps_undo _)
  intro _
  exact Keeps.modify (fun _ => rfl)

theorem keepsFlow_getMode :
    Keeps State.flow (getMode : Exec (State W Reg) Mode) := by
  apply Keeps.bind Keeps.get
  intro s
  exact Keeps.pure _

theorem keepsFlow_setCodepage (codepage : Nat) :
    Keeps State.flow
      (setCodepage env codepage : Exec (State W Reg) Unit) := by
  apply keepsFlow_sb
  apply Quiet.bind quiet_getCore
  intro core
  apply Quiet.bind (quiet_undoCore _)
  intro _
  exact quiet_modifyCore _

theorem keepsFlow_setEscapeChar (chr : Gunichar) :
    Keeps State.flow
      (setEscapeChar env chr : Exec (State W Reg) Unit) := by
  apply keepsFlow_sb
  apply Quiet.bind quiet_getCore
  intro core
  apply Quiet.bind (quiet_undoCore _)
  intro _
  exact quiet_modifyCore _

end Parts

/-!
## Commands of the parser
-/

theorem keepsFlow_unmodified {action : Exec (State W Reg) Unit}
    (chr : Gunichar) (h : Keeps State.flow action) :
    Keeps State.flow (unmodified chr action) := by
  apply Keeps.bind Keeps.get
  intro s
  apply Keeps.ite (Keeps.throw _)
  apply Keeps.bind h
  intro _
  exact Keeps.pure _

theorem keepsFlow_digit (chr : Gunichar) :
    Keeps State.flow (digit host env chr) := by
  apply Keeps.bind Keeps.get
  intro s
  exact Keeps.ite (keepsFlow_onExpr _) (Keeps.pure ())

theorem keepsFlow_condElse :
    Keeps State.flow (condElse env : Exec (State W Reg) Unit) := by
  apply Keeps.bind Keeps.get
  intro s
  apply Keeps.bind keepsFlow_undoFlags
  intro _
  exact Keeps.ite (keepsFlow_mapFlags _)
    (Keeps.ite (keepsFlow_mapFlags _) (Keeps.pure ()))

theorem keepsFlow_condEnd :
    Keeps State.flow (condEnd env : Exec (State W Reg) Unit) := by
  apply Keeps.bind Keeps.get
  intro s
  apply Keeps.ite
  · exact Keeps.ite (keepsFlow_setMode _) (keepsFlow_addNestLevel _)
  · exact Keeps.pure ()

theorem keepsFlow_skipLoopOpen :
    Keeps State.flow
      (skipLoopOpen env : Exec (State W Reg) MainState) := by
  apply Keeps.bind (keepsFlow_addNestLevel _)
  intro _
  exact Keeps.pure _

theorem keepsFlow_skipLoopClose :
    Keeps State.flow
      (skipLoopClose env : Exec (State W Reg) MainState) := by
  apply Keeps.bind Keeps.get
  intro s
  apply Keeps.ite
  · apply Keeps.bind (keepsFlow_setMode _)
    intro _
    exact Keeps.pure _
  · apply Keeps.bind (keepsFlow_addNestLevel _)
    intro _
    exact Keeps.pure _

theorem keepsFlow_atModifier (chr : Gunichar) :
    Keeps State.flow
      (atModifier env chr : Exec (State W Reg) MainState) := by
  apply Keeps.bind Keeps.get
  intro s
  apply Keeps.ite (Keeps.throw _)
  apply Keeps.bind keepsFlow_undoFlags
  intro _
  apply Keeps.bind (keepsFlow_mapFlags _)
  intro _
  exact Keeps.pure _

theorem keepsFlow_colonModifier (chr : Gunichar) :
    Keeps State.flow
      (colonModifier env chr : Exec (State W Reg) MainState) := by
  apply Keeps.bind Keeps.get
  intro s
  apply Keeps.ite (Keeps.pure _)
  apply Keeps.ite (Keeps.throw _)
  apply Keeps.bind keepsFlow_undoFlags
  intro _
  apply Keeps.bind (keepsFlow_mapFlags _)
  intro _
  exact Keeps.pure _

theorem keepsFlow_controlNegate :
    Keeps State.flow (controlNegate : Exec (State W Reg) Unit) := by
  apply Keeps.bind (keepsFlow_onExpr _)
  intro _
  apply Keeps.bind Keeps.get
  intro s
  apply Keeps.ite (Keeps.throw _)
  apply Keeps.bind (keepsFlow_onExpr _)
  intro n
  exact keepsFlow_onExpr _

/-- A return is an error. -/
theorem keepsFlow_returnArguments {ρ : Type} {f : State W Reg -> ρ} :
    Keeps f (returnArguments : Exec (State W Reg) Unit) := by
  intro s
  rw [wp_returnArguments]
  exact wp_of_forall (fun _ _ => trivial) (fun _ _ => trivial)
    (fun _ => trivial)

theorem keepsFlow_tecoReturn :
    Keeps State.flow (tecoReturn host env : Exec (State W Reg) Unit) := by
  apply Keeps.bind Keeps.get
  intro s
  apply Keeps.ite (Keeps.fault _)
  exact Keeps.ite (Keeps.throw _) keepsFlow_returnArguments

theorem keepsFlow_condValue (chr : Gunichar) :
    Keeps State.flow (condValue chr : Exec (State W Reg) TecoInt) := by
  apply Keeps.bind (keepsFlow_onExpr _)
  intro _
  apply Keeps.bind Keeps.get
  intro s
  apply Keeps.ite (Keeps.pure 0)
  exact Keeps.ite (Keeps.throw _) (keepsFlow_onExpr _)

theorem keepsFlow_condcommandInput (chr : Gunichar) :
    Keeps State.flow (condcommandInput host env chr) := by
  apply Keeps.bind Keeps.get
  intro s
  apply Keeps.ite
  · apply Keeps.bind (keepsFlow_condValue chr)
    intro value
    apply Keeps.bind Keeps.get
    intro t
    split
    · exact Keeps.throw _
    · exact Keeps.pure _
    · apply Keeps.bind (keepsFlow_setMode _)
      intro _
      exact Keeps.pure _
  · apply Keeps.ite
    · apply Keeps.bind (keepsFlow_addNestLevel _)
      intro _
      split
      · exact Keeps.throw _
      · exact Keeps.pure _
    · split
      · exact Keeps.throw _
      · exact Keeps.pure _

theorem keepsFlow_asciiInput (chr : Gunichar) :
    Keeps State.flow (asciiInput chr : Exec (State W Reg) MainState) := by
  apply Keeps.bind Keeps.get
  intro s
  apply Keeps.ite
  · apply Keeps.bind (keepsFlow_onExpr _)
    intro _
    exact Keeps.pure _
  · exact Keeps.pure _

theorem keepsFlow_ctlcInitial :
    Keeps State.flow (ctlcInitial env : Exec (State W Reg) Unit) :=
  Keeps.ite (Keeps.throw _) (Keeps.pure ())

theorem keepsFlow_print (radix : Nat) :
    Keeps State.flow (print env radix : Exec (State W Reg) Unit) := by
  apply Keeps.bind (keepsFlow_onExpr _)
  intro _
  apply Keeps.bind Keeps.get
  intro s
  apply Keeps.ite (Keeps.throw _)
  split
  · exact Keeps.fault _
  · apply Keeps.bind keepsFlow_evalColon
    intro colon
    exact keepsFlow_interfaceMsg _ _

theorem keepsFlow_printInitial (radix : Nat) :
    Keeps State.flow
      (printInitial env radix : Exec (State W Reg) Unit) := by
  apply Keeps.bind Keeps.get
  intro s
  apply Keeps.ite (Keeps.pure ())
  apply Keeps.bind
  · exact Keeps.modify (fun _ => rfl)
  · intro _
    exact Keeps.ite (keepsFlow_print radix) (Keeps.pure ())

theorem keepsFlow_printDeferred (radix : Nat) :
    Keeps State.flow
      (printDeferred env radix : Exec (State W Reg) Unit) := by
  have hpop : Keeps State.flow (do
      let _ <- onExpr (Expressions.popNum 0)
      pure () : Exec (State W Reg) Unit) := by
    apply Keeps.bind (keepsFlow_onExpr _)
    intro _
    exact Keeps.pure ()
  apply Keeps.bind Keeps.get
  intro s
  apply Keeps.ite
  · exact Keeps.guard (keepsFlow_print radix) (fun _ => hpop)
  · exact Keeps.pure ()

/-!
## Arguments
-/

section Arguments

variable (hhost : host.Nests False env)

theorem keepsFlow_expectqregReset :
    Keeps State.flow (expectqregReset env : Exec (State W Reg) Unit) := by
  apply Keeps.bind Keeps.get
  intro s
  apply Keeps.bind (keeps_undo _)
  intro _
  exact Keeps.modify (fun _ => rfl)

theorem keepsFlow_expectqregInitial (cmd : QRegCommand) :
    Keeps State.flow (expectqregInitial env host cmd) := by
  have hnew (type : QRegType) :
      Keeps State.flow (expectqregNew env host type) := by
    apply Keeps.bind Keeps.get
    intro s
    apply Keeps.bind
    · exact Keeps.modify (fun _ => rfl)
    · intro _
      exact keeps_undo _
  apply Keeps.bind Keeps.get
  intro s
  split
  · exact hnew _
  · exact hnew _

theorem keepsFlow_expectqregResults :
    Keeps State.flow
      (expectqregResults : Exec (State W Reg) (Option Reg × Table)) := by
  apply Keeps.bind Keeps.get
  intro s
  split
  · exact Keeps.fault _
  · exact Keeps.pure _

theorem keepsFlow_printStringInitial :
    Keeps State.flow (printStringInitial host env) := by
  apply Keeps.bind (keepsFlow_setEscapeChar _)
  intro _
  apply Keeps.bind keepsFlow_getMode
  intro mode
  apply Keeps.ite (Keeps.pure ())
  apply Keeps.bind keepsFlow_evalColon
  intro colon
  apply Keeps.bind Keeps.get
  intro s
  exact keepsFlow_setCodepage _

theorem keepsFlow_countNesting (chr : Gunichar) :
    Keeps State.flow (countNesting host env chr) := by
  apply Keeps.bind Keeps.get
  intro s
  apply Keeps.ite (Keeps.pure ())
  apply Keeps.bind (keeps_undo _)
  intro _
  exact keepsFlow_mapString _

theorem keepsFlow_resetString (cmd : StringCommand) :
    Keeps State.flow (resetString env cmd : Exec (State W Reg) Unit) := by
  have hend (insertLen : Nat) : Keeps State.flow (do
      undo env (State.mapString (fun e => { e with insertLen := insertLen }))
      modify (State.mapString (fun e => { e with insertLen := 0 })) :
      Exec (State W Reg) Unit) := by
    apply Keeps.bind (keeps_undo _)
    intro _
    exact keepsFlow_mapString _
  have hrest (insertLen : Nat) : Keeps State.flow (do
      modify (State.mapString (fun e => { e with nesting := 1 }))
      if cmd.stringBuilding then
        zoom sbLens (sbReset env)
      else
        pure ()
      undo env (State.mapString (fun e => { e with insertLen := insertLen }))
      modify (State.mapString (fun e => { e with insertLen := 0 })) :
      Exec (State W Reg) Unit) := by
    apply Keeps.bind (keepsFlow_mapString _)
    intro _
    apply Keeps.ite
    · apply Keeps.bind (keepsFlow_sb quiet_sbReset)
      intro _
      exact hend _
    · exact hend _
  apply Keeps.bind Keeps.get
  intro s
  apply Keeps.bind (keeps_undo _)
  intro _
  apply Keeps.bind (keepsFlow_mapString _)
  intro _
  apply Keeps.ite
  · apply Keeps.bind (keepsFlow_setEscapeChar _)
    intro _
    exact hrest _
  · apply Keeps.ite
    · apply Keeps.bind keepsFlow_undoFlags
      intro _
      apply Keeps.bind (keepsFlow_mapFlags _)
      intro _
      exact hrest _
    · exact hrest _

include hhost

theorem keepsFlow_hostGotRegister (cmd : QRegCommand) (qreg : Option Reg)
    (table : Table) (modifierAt : Bool) :
    Keeps State.flow (hostGotRegister host env cmd qreg table modifierAt) := by
  apply Keeps.bind keepsFlow_getMode
  intro mode
  apply Keeps.ite (Keeps.pure ())
  exact keepsFlow_onHost (hhost.command _ (.gotRegister cmd _ _ _))

theorem keepsFlow_gotRegister (cmd : QRegCommand) (qreg : Option Reg)
    (table : Table) :
    Keeps State.flow (gotRegister host env cmd qreg table) := by
  have hrest (next : MainState) :
      Keeps State.flow (do
        expectqregReset env
        hostGotRegister host env cmd qreg table false
        pure next) := by
    apply Keeps.bind keepsFlow_expectqregReset
    intro _
    apply Keeps.bind (keepsFlow_hostGotRegister hhost _ _ _ _)
    intro _
    exact Keeps.pure _
  cases cmd with
  | eqcommand => exact Keeps.pure _
  | epctcommand => exact Keeps.pure _
  | ctlucommand => exact Keeps.pure _
  | eucommand => exact Keeps.pure _
  | egcommand => exact hrest _
  | copytoqreg =>
      apply Keeps.bind keepsFlow_expectqregReset
      intro _
      apply Keeps.bind keepsFlow_evalAt
      intro modifierAt
      apply Keeps.bind (keepsFlow_hostGotRegister hhost _ _ _ _)
      intro _
      exact Keeps.pure _
  | pushqreg => exact hrest _
  | popqreg => exact hrest _
  | queryqreg => exact hrest _
  | getqregstring => exact hrest _
  | setqreginteger => exact hrest _
  | increaseqreg => exact hrest _
  | macroCall => exact hrest _
  | saveCmdline => exact hrest _

theorem keepsFlow_expectqregInput (cmd : QRegCommand) (chr : Gunichar) :
    Keeps State.flow (expectqregInput host env cmd chr) := by
  apply Keeps.bind Keeps.get
  intro s
  split
  · exact Keeps.fault _
  · apply Keeps.bind
      (keepsFlow_expectqreg (quiet_qregSpecInput hhost.reads _ _))
    intro status
    split
    · exact Keeps.pure _
    · exact keepsFlow_gotRegister hhost _ _ _

theorem keepsFlow_stringInitial (cmd : StringCommand) :
    Keeps State.flow (stringInitial host env cmd) := by
  have hinitial (cmd : StringCommand) :
      Keeps State.flow (hostStringInitial host env cmd) := by
    have hend : Keeps State.flow
        (onHost (host.stringInitial cmd env) : Exec (State W Reg) Unit) :=
      keepsFlow_onHost (hhost.command _ (.stringInitial cmd))
    apply Keeps.bind keepsFlow_getMode
    intro mode
    apply Keeps.ite (Keeps.pure ())
    apply Keeps.bind Keeps.get
    intro s
    apply Keeps.bind
    · exact keepsFlow_onHost (hhost.command _ (.stringCodepage cmd _))
    intro codepage
    split
    · exact Keeps.bind (keepsFlow_setCodepage _) (fun _ => hend)
    · exact hend
  unfold stringInitial
  split
  · exact keepsFlow_printStringInitial
  · exact Keeps.pure ()
  · apply Keeps.ite (hinitial _)
    apply Keeps.bind Keeps.get
    intro s
    exact Keeps.ite (keepsFlow_setCodepage _) (Keeps.pure ())

theorem keepsFlow_stringProcess (cmd : StringCommand) :
    Keeps State.flow (stringProcess host env cmd) := by
  apply Keeps.bind Keeps.get
  intro s
  apply Keeps.ite (Keeps.pure ())
  apply Keeps.ite
  · exact Keeps.ite (Keeps.fault _)
      (Keeps.ite (Keeps.throw _) (Keeps.pure ()))
  · apply Keeps.ite _ (Keeps.pure ())
    exact keepsFlow_onHost (hhost.command _ (.stringProcess cmd _ _ _))

theorem keepsFlow_hostStringDone (cmd : StringCommand)
    (qreg : Option (Option Reg × Table)) (str : Bytes) :
    Keeps State.flow (hostStringDone host env cmd qreg str) := by
  apply Keeps.bind keepsFlow_getMode
  intro mode
  apply Keeps.ite (Keeps.pure ())
  exact keepsFlow_onHost (hhost.command _ (.stringDone cmd _ _))

theorem keepsFlow_replaceDone (cmd found notFound : StringCommand)
    (str : Bytes) :
    Keeps State.flow (replaceDone host env cmd found notFound str) := by
  have hsucceeded : Keeps State.flow (searchSucceeded host) := by
    apply Keeps.bind Keeps.get
    intro s
    split
    · exact Keeps.fault _
    · apply Keeps.bind (keepsFlow_editor (hhost.reads.getInteger _))
      intro searchState
      exact Keeps.pure _
  apply Keeps.bind keepsFlow_getMode
  intro mode
  apply Keeps.ite (Keeps.pure _)
  apply Keeps.bind (keepsFlow_hostStringDone hhost _ _ _)
  intro _
  apply Keeps.bind hsucceeded
  intro success
  exact Keeps.pure _

theorem keepsFlow_replaceDefaultAllDone (str : Bytes) :
    Keeps State.flow (replaceDefaultAllDone host env str) := by
  apply Keeps.bind (keepsFlow_replaceDone hhost _ _ _ _)
  intro next
  apply Keeps.bind keepsFlow_getMode
  intro mode
  apply Keeps.ite (Keeps.pure _)
  apply Keeps.bind
  · exact keepsFlow_onHost (hhost.command _ (.run .bufferHook))
  intro _
  exact Keeps.pure _

theorem keepsFlow_qregStringDone (cmd : StringCommand) (str : Bytes) :
    Keeps State.flow (qregStringDone host env cmd str) := by
  apply Keeps.bind keepsFlow_expectqregResults
  intro qreg
  apply Keeps.bind keepsFlow_expectqregReset
  intro _
  apply Keeps.bind (keepsFlow_hostStringDone hhost _ _ _)
  intro _
  exact Keeps.pure _

/-- All string arguments but the labels of `O`. -/
theorem keepsFlow_stringDone {cmd : StringCommand} (str : Bytes)
    (hcmd : cmd ≠ StringCommand.goto) :
    Keeps State.flow (stringDone host env cmd str) := by
  have hdone (cmd : StringCommand) (next : MainState) :
      Keeps State.flow (do
        hostStringDone host env cmd none str
        pure next) := by
    apply Keeps.bind (keepsFlow_hostStringDone hhost _ _ _)
    intro _
    exact Keeps.pure _
  unfold stringDone
  split
  · exact absurd rfl hcmd
  · apply Keeps.bind (keepsFlow_interfaceMsg _ _)
    intro _
    exact Keeps.pure _
  · exact Keeps.pure _
  · exact Keeps.ite (Keeps.pure _) (hdone _ _)
  · exact keepsFlow_replaceDone hhost _ _ _ _
  · exact keepsFlow_replaceDone hhost _ _ _ _
  · exact keepsFlow_replaceDefaultAllDone hhost _
  · exact hdone _ _
  · exact hdone _ _
  · exact keepsFlow_qregStringDone hhost _ _
  · exact keepsFlow_qregStringDone hhost _ _
  · exact keepsFlow_qregStringDone hhost _ _
  · exact keepsFlow_qregStringDone hhost _ _
  · exact hdone _ _

theorem keepsFlow_accumulateString (cmd : StringCommand) (chr : Gunichar) :
    Keeps State.flow (accumulateString host env cmd chr) := by
  apply Keeps.bind Keeps.get
  intro s
  have hend : Keeps State.flow (do
      let t <- get
      undo env (State.mapString (fun e =>
        { e with insertLen := t.machine.expectstring.insertLen }))
      modify (State.mapString (fun e =>
        { e with
          insertLen := e.insertLen +
            (e.string.length - s.machine.expectstring.string.length) }))
      pure (MainState.expectstring cmd) : Exec (State W Reg) MainState) := by
    apply Keeps.bind Keeps.get
    intro t
    apply Keeps.bind (keeps_undo _)
    intro _
    apply Keeps.bind (keepsFlow_mapString _)
    intro _
    exact Keeps.pure _
  have hrest (text : Bytes) := Keeps.ite
    (c := decide (s.mode = Mode.normal) = true)
    (Keeps.bind (keepsFlow_mapString (fun e =>
      { e with string := e.string ++ text })) (fun _ => hend)) hend
  have hsb : Keeps State.flow (zoom sbLens
      (sbInput host env (decide (s.mode = Mode.normal)) chr)) :=
    keepsFlow_sb (quiet_sbInput hhost.reads _ chr)
  have htext := Keeps.ite (c := cmd.stringBuilding = true)
    (Keeps.bind hsb hrest)
    (Keeps.bind (Keeps.pure (unicharToUtf8 chr)) hrest)
  exact Keeps.ite (Keeps.bind (keeps_undo _) (fun _ => htext)) htext

theorem keepsFlow_stateRefresh (state : MainState) :
    Keeps State.flow (stateRefresh host env state) := by
  unfold stateRefresh
  split
  · apply Keeps.bind Keeps.get
    intro s
    apply Keeps.bind (keepsFlow_stringProcess hhost _)
    intro _
    apply Keeps.bind (keeps_undo _)
    intro _
    exact keepsFlow_mapString _
  · exact Keeps.pure ()

theorem keepsFlow_stateInitial (state : MainState) :
    Keeps State.flow (stateInitial host env state) := by
  unfold stateInitial
  split
  · exact keepsFlow_ctlcInitial
  · exact keepsFlow_printInitial _
  · exact keepsFlow_printInitial _
  · exact keepsFlow_expectqregInitial _
  · exact keepsFlow_stringInitial hhost _
  · exact Keeps.pure ()

theorem keepsFlow_enterState (next : MainState) :
    Keeps State.flow (enterState host env next) := by
  apply Keeps.bind Keeps.get
  intro s
  apply Keeps.ite (Keeps.pure ())
  apply Keeps.bind (keeps_undo _)
  intro _
  apply Keeps.bind
  · exact Keeps.modify (fun _ => rfl)
  intro _
  exact keepsFlow_stateInitial hhost next

theorem keepsFlow_wordCommand (cmd : Bool -> EditorCommand) :
    Keeps State.flow (wordCommand host env cmd) := by
  apply Keeps.bind keepsFlow_evalAt
  intro modifierAt
  apply Keeps.bind keepsFlow_getMode
  intro mode
  apply Keeps.ite (Keeps.pure _)
  apply Keeps.bind
  · exact keepsFlow_onHost (hhost.command _ (.run _))
  intro _
  exact Keeps.pure _

end Arguments

end Parser
end SciTECO
