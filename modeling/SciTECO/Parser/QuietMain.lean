import SciTECO.Parser.Quiet

/-!
# Commands without loops

Most of what the main machine does touches neither the loop stack nor the frame
pointer of the invocation.
-/

namespace SciTECO
namespace Parser

open Undoable
open QReg (Table)

variable {W Reg : Type} {host : Host W Reg} {env : Env}

def Editor.loops (e : Editor W) : List LoopContext := e.loopStack

/-- `teco_loop_stack` and `loop_stack_fp`. -/
def State.frame (s : State W Reg) : List LoopContext × Nat :=
  (s.editor.loopStack, s.machine.loopStackFp)

/-!
## Parts of the state
-/

theorem quiet_onExpr {α : Type} (m : Exec Expressions α) :
    Quiet State.frame (onExpr m : Exec (State W Reg) α) :=
  Quiet.zoom_apart m (fun _ _ => rfl)

/-- Work on the editor next to a part of the machine. -/
theorem quiet_scope {σ α : Type} {l : Lens (State W Reg) (σ × Editor W)}
    {m : Exec (σ × Editor W) α} (h : Quiet (besides Editor.loops) m)
    (hset : forall t s, (l.set t s).editor = t.2)
    (hget : forall s, (l.get s).2 = s.editor)
    (hfp : forall t s,
      (l.set t s).machine.loopStackFp = s.machine.loopStackFp) :
    Quiet State.frame (zoom l m) := by
  have hloops : Quiet (fun s : State W Reg => s.editor.loopStack)
      (zoom l m) := by
    apply Quiet.zoom h
    · intro t s
      exact congrArg Editor.loopStack (hset t s)
    · intro s
      exact congrArg Editor.loopStack (hget s)
  exact hloops.pair (Quiet.zoom_apart m hfp)

theorem quiet_sb {α : Type} {m : Exec (SBScope W Reg) α}
    (h : Quiet (besides Editor.loops) m) :
    Quiet State.frame (zoom sbLens m) :=
  quiet_scope h (fun _ _ => rfl) (fun _ => rfl) (fun _ _ => rfl)

theorem quiet_expectqreg {α : Type} {spec : QRegSpec Reg}
    {m : Exec (SpecScope W Reg) α} (h : Quiet (besides Editor.loops) m) :
    Quiet State.frame (zoom (expectqregLens spec) m) :=
  quiet_scope h (fun _ _ => rfl) (fun _ => rfl) (fun _ _ => rfl)

theorem quiet_editor {α : Type} {m : Exec (Editor W) α}
    (h : Quiet Editor.loops m) :
    Quiet State.frame (zoom editorLens m : Exec (State W Reg) α) := by
  have hloops : Quiet (fun s : State W Reg => s.editor.loopStack)
      (zoom editorLens m) := Quiet.zoom h (fun _ _ => rfl) (fun _ => rfl)
  exact hloops.pair (Quiet.zoom_apart m (fun _ _ => rfl))

theorem quiet_interfaceMsg (severity : Severity) (text : Bytes) :
    Quiet State.frame
      (interfaceMsg severity text : Exec (State W Reg) Unit) :=
  Quiet.modify (fun _ => rfl)

/-!
## Flags
-/

theorem quiet_mapFlags (f : Flags -> Flags) :
    Quiet State.frame (modify (State.mapFlags f) :
      Exec (State W Reg) Unit) :=
  Quiet.modify (fun _ => rfl)

theorem quiet_undoFlags :
    Quiet State.frame (undoFlags env : Exec (State W Reg) Unit) := by
  apply Quiet.bind Quiet.get
  intro s
  exact quiet_undo (fun _ => rfl)

/-- A change of the flags. -/
theorem quiet_changeFlags (f : Flags -> Flags) :
    Quiet State.frame (do
      undoFlags env
      modify (State.mapFlags f) : Exec (State W Reg) Unit) := by
  apply Quiet.bind quiet_undoFlags
  intro _
  exact quiet_mapFlags f

theorem quiet_setMode (mode : Mode) :
    Quiet State.frame (setMode env mode : Exec (State W Reg) Unit) :=
  quiet_changeFlags _

theorem quiet_evalColon :
    Quiet State.frame (evalColon env : Exec (State W Reg) Nat) := by
  apply Quiet.bind Quiet.get
  intro s
  apply Quiet.ite (Quiet.pure _)
  apply Quiet.bind quiet_undoFlags
  intro _
  apply Quiet.bind (quiet_mapFlags _)
  intro _
  exact Quiet.pure _

theorem quiet_evalAt :
    Quiet State.frame (evalAt env : Exec (State W Reg) Bool) := by
  apply Quiet.bind Quiet.get
  intro s
  apply Quiet.ite
  · apply Quiet.bind quiet_undoFlags
    intro _
    apply Quiet.bind (quiet_mapFlags _)
    intro _
    exact Quiet.pure _
  · exact Quiet.pure _

theorem quiet_addNestLevel (change : Int) :
    Quiet State.frame
      (addNestLevel env change : Exec (State W Reg) Unit) := by
  apply Quiet.bind Quiet.get
  intro s
  apply Quiet.bind
  · exact quiet_undo (fun _ => rfl)
  intro _
  exact Quiet.modify (fun _ => rfl)

theorem quiet_getMode :
    Quiet State.frame (getMode : Exec (State W Reg) Mode) := by
  apply Quiet.bind Quiet.get
  intro s
  exact Quiet.pure _

/-!
## Arguments
-/

theorem quiet_expectqregReset :
    Quiet State.frame (expectqregReset env : Exec (State W Reg) Unit) := by
  apply Quiet.bind Quiet.get
  intro s
  apply Quiet.bind
  · exact quiet_undo (fun _ => rfl)
  intro _
  exact Quiet.modify (fun _ => rfl)

theorem quiet_expectqregNew (type : QRegType) :
    Quiet State.frame (expectqregNew env host type) := by
  apply Quiet.bind Quiet.get
  intro s
  apply Quiet.bind
  · exact Quiet.modify (fun _ => rfl)
  intro _
  exact quiet_undo (fun _ => rfl)

theorem quiet_expectqregInitial (cmd : QRegCommand) :
    Quiet State.frame (expectqregInitial env host cmd) := by
  apply Quiet.bind Quiet.get
  intro s
  split
  · exact quiet_expectqregNew _
  · exact quiet_expectqregNew _

theorem quiet_expectqregResults :
    Quiet State.frame
      (expectqregResults : Exec (State W Reg) (Option Reg × Table)) := by
  apply Quiet.bind Quiet.get
  intro s
  split
  · exact Quiet.fault _
  · exact Quiet.pure _

theorem quiet_clearGotoSkipLabel :
    Quiet State.frame (clearGotoSkipLabel : Exec (State W Reg) Unit) := by
  apply Quiet.bind Quiet.get
  intro s
  apply Quiet.bind
  · exact Quiet.emit (fun _ => rfl)
  intro _
  apply Quiet.bind
  · exact Quiet.modify (fun _ => rfl)
  intro _
  apply Quiet.bind
  · exact Quiet.emit (fun _ => rfl)
  intro _
  exact Quiet.modify (fun _ => rfl)

theorem quiet_gotoLabel (label : Bytes) (colonModified : Bool) :
    Quiet State.frame
      (gotoLabel env label colonModified : Exec (State W Reg) Unit) := by
  apply Quiet.bind Quiet.get
  intro s
  split
  · exact Quiet.modify (fun _ => rfl)
  · apply Quiet.ite
    · exact Quiet.ite (Quiet.pure ()) (Quiet.throw _)
    · apply Quiet.ite (Quiet.fault _)
      apply Quiet.bind
      · exact Quiet.emit (fun _ => rfl)
      intro _
      apply Quiet.bind
      · exact Quiet.modify (fun _ => rfl)
      intro _
      apply Quiet.bind
      · exact Quiet.emit (fun _ => rfl)
      intro _
      apply Quiet.bind
      · exact Quiet.modify (fun _ => rfl)
      intro _
      exact quiet_setMode _

theorem quiet_gotoDone (str : Bytes) :
    Quiet State.frame (gotoDone env str : Exec (State W Reg) Unit) := by
  apply Quiet.ite (Quiet.throw _)
  apply Quiet.bind (quiet_onExpr _)
  intro value
  apply Quiet.bind quiet_evalColon
  intro colon
  exact Quiet.ite (Quiet.pure ()) (quiet_gotoLabel _ _)

theorem quiet_setCodepage (codepage : Nat) :
    Quiet State.frame
      (setCodepage env codepage : Exec (State W Reg) Unit) := by
  apply quiet_sb
  apply Quiet.bind quiet_getCore
  intro core
  apply Quiet.bind (quiet_undoCore _)
  intro _
  exact quiet_modifyCore _

theorem quiet_setEscapeChar (chr : Gunichar) :
    Quiet State.frame
      (setEscapeChar env chr : Exec (State W Reg) Unit) := by
  apply quiet_sb
  apply Quiet.bind quiet_getCore
  intro core
  apply Quiet.bind (quiet_undoCore _)
  intro _
  exact quiet_modifyCore _

theorem quiet_printStringInitial :
    Quiet State.frame (printStringInitial host env) := by
  apply Quiet.bind (quiet_setEscapeChar _)
  intro _
  apply Quiet.bind quiet_getMode
  intro mode
  apply Quiet.ite (Quiet.pure ())
  apply Quiet.bind quiet_evalColon
  intro colon
  apply Quiet.bind Quiet.get
  intro s
  exact quiet_setCodepage _

theorem quiet_expectfileProcess (str : Bytes) (newChars : Nat) :
    Quiet State.frame
      (expectfileProcess str newChars : Exec (State W Reg) Unit) :=
  Quiet.ite (Quiet.fault _) (Quiet.ite (Quiet.throw _) (Quiet.pure ()))

theorem quiet_searchSucceeded (hhost : host.ReadsOnly Editor.loops) :
    Quiet State.frame (searchSucceeded host) := by
  apply Quiet.bind Quiet.get
  intro s
  split
  · exact Quiet.fault _
  · apply Quiet.bind (quiet_editor (hhost.getInteger _))
    intro searchState
    exact Quiet.pure _

theorem quiet_countNesting (chr : Gunichar) :
    Quiet State.frame (countNesting host env chr) := by
  apply Quiet.bind Quiet.get
  intro s
  apply Quiet.ite (Quiet.pure ())
  apply Quiet.bind
  · exact quiet_undo (fun _ => rfl)
  intro _
  exact Quiet.modify (fun _ => rfl)

theorem quiet_mapString (f : ExpectString Reg -> ExpectString Reg) :
    Quiet State.frame (modify (State.mapString f) :
      Exec (State W Reg) Unit) :=
  Quiet.modify (fun _ => rfl)

theorem quiet_resetString (cmd : StringCommand) :
    Quiet State.frame (resetString env cmd : Exec (State W Reg) Unit) := by
  have hend : forall insertLen : Nat, Quiet State.frame (do
      undo env (State.mapString (fun e => { e with insertLen := insertLen }))
      modify (State.mapString (fun e => { e with insertLen := 0 })) :
      Exec (State W Reg) Unit) := by
    intro insertLen
    apply Quiet.bind
    · exact quiet_undo (fun _ => rfl)
    intro _
    exact quiet_mapString _
  have hrest : forall insertLen : Nat, Quiet State.frame (do
      modify (State.mapString (fun e => { e with nesting := 1 }))
      if cmd.stringBuilding then
        zoom sbLens (sbReset env)
      else
        pure ()
      undo env (State.mapString (fun e => { e with insertLen := insertLen }))
      modify (State.mapString (fun e => { e with insertLen := 0 })) :
      Exec (State W Reg) Unit) := by
    intro insertLen
    apply Quiet.bind (quiet_mapString _)
    intro _
    apply Quiet.ite
    · apply Quiet.bind (quiet_sb quiet_sbReset)
      intro _
      exact hend _
    · exact hend _
  apply Quiet.bind Quiet.get
  intro s
  apply Quiet.bind
  · exact quiet_undo (fun _ => rfl)
  intro _
  apply Quiet.bind (quiet_mapString _)
  intro _
  apply Quiet.ite
  · apply Quiet.bind (quiet_setEscapeChar _)
    intro _
    exact hrest _
  · apply Quiet.ite
    · apply Quiet.bind quiet_undoFlags
      intro _
      apply Quiet.bind (quiet_mapFlags _)
      intro _
      exact hrest _
    · exact hrest _

theorem quiet_accumulateString (hhost : host.ReadsOnly Editor.loops)
    (cmd : StringCommand) (chr : Gunichar) :
    Quiet State.frame (accumulateString host env cmd chr) := by
  apply Quiet.bind Quiet.get
  intro s
  have hend : Quiet State.frame (do
      let t <- get
      undo env (State.mapString (fun e =>
        { e with insertLen := t.machine.expectstring.insertLen }))
      modify (State.mapString (fun e =>
        { e with
          insertLen := e.insertLen +
            (e.string.length - s.machine.expectstring.string.length) }))
      pure (MainState.expectstring cmd) : Exec (State W Reg) MainState) := by
    apply Quiet.bind Quiet.get
    intro t
    apply Quiet.bind
    · exact quiet_undo (fun _ => rfl)
    intro _
    apply Quiet.bind (quiet_mapString _)
    intro _
    exact Quiet.pure _
  have hrest : forall text : Bytes, Quiet State.frame (do
      if decide (s.mode = Mode.normal) then
        modify (State.mapString (fun e =>
          { e with string := e.string ++ text }))
      else
        pure ()
      let t <- get
      undo env (State.mapString (fun e =>
        { e with insertLen := t.machine.expectstring.insertLen }))
      modify (State.mapString (fun e =>
        { e with
          insertLen := e.insertLen +
            (e.string.length - s.machine.expectstring.string.length) }))
      pure (MainState.expectstring cmd) : Exec (State W Reg) MainState) := by
    intro text
    apply Quiet.ite
    · apply Quiet.bind (quiet_mapString _)
      intro _
      exact hend
    · exact hend
  have htext : Quiet State.frame (do
      let text <-
        if cmd.stringBuilding then
          zoom sbLens (sbInput host env (decide (s.mode = Mode.normal)) chr)
        else
          pure (unicharToUtf8 chr)
      if decide (s.mode = Mode.normal) then
        modify (State.mapString (fun e =>
          { e with string := e.string ++ text }))
      else
        pure ()
      let t <- get
      undo env (State.mapString (fun e =>
        { e with insertLen := t.machine.expectstring.insertLen }))
      modify (State.mapString (fun e =>
        { e with
          insertLen := e.insertLen +
            (e.string.length - s.machine.expectstring.string.length) }))
      pure (MainState.expectstring cmd) : Exec (State W Reg) MainState) := by
    apply Quiet.ite
    · apply Quiet.bind (quiet_sb (quiet_sbInput hhost _ _))
      intro text
      exact hrest text
    · apply Quiet.bind (Quiet.pure _)
      intro text
      exact hrest text
  apply Quiet.ite
  · apply Quiet.bind
    · exact quiet_undo (fun _ => rfl)
    intro _
    exact htext
  · exact htext

/-!
## Commands
-/

theorem quiet_returnArguments :
    Quiet State.frame (returnArguments : Exec (State W Reg) Unit) := by
  apply Quiet.bind
  · exact Quiet.modify (fun _ => rfl)
  intro _
  apply Quiet.bind (quiet_onExpr _)
  intro _
  apply Quiet.bind
  · exact Quiet.modify (fun _ => rfl)
  intro _
  exact Quiet.throw _

theorem quiet_tecoReturn : Quiet State.frame (tecoReturn host env) := by
  apply Quiet.bind Quiet.get
  intro s
  apply Quiet.ite (Quiet.fault _)
  exact Quiet.ite (Quiet.throw _) quiet_returnArguments

theorem quiet_fcommandLoopStart :
    Quiet State.frame (fcommandLoopStart env : Exec (State W Reg) Unit) := by
  have hjump : forall pc : Nat, Quiet State.frame
      (modify (State.mapMachine (fun m => { m with macroPc := pc })) :
        Exec (State W Reg) Unit) :=
    fun pc => Quiet.modify (fun _ => rfl)
  apply Quiet.bind Quiet.get
  intro s
  split
  · apply Quiet.bind (quiet_onExpr _)
    intro _
    exact hjump _
  · apply Quiet.bind quiet_evalColon
    intro colon
    apply Quiet.ite
    · exact Quiet.bind (Quiet.pure ()) (fun _ => hjump _)
    · apply Quiet.ite
      · apply Quiet.bind (quiet_onExpr _)
        intro _
        exact Quiet.bind (quiet_onExpr _) (fun _ => hjump _)
      · exact Quiet.bind (quiet_onExpr _) (fun _ => hjump _)

theorem quiet_controlNegate :
    Quiet State.frame (controlNegate : Exec (State W Reg) Unit) := by
  apply Quiet.bind (quiet_onExpr _)
  intro _
  apply Quiet.bind Quiet.get
  intro s
  apply Quiet.ite (Quiet.throw _)
  apply Quiet.bind (quiet_onExpr _)
  intro n
  exact quiet_onExpr _

theorem quiet_digit (chr : Gunichar) :
    Quiet State.frame (digit host env chr) := by
  apply Quiet.bind Quiet.get
  intro s
  exact Quiet.ite (quiet_onExpr _) (Quiet.pure ())

theorem quiet_condElse :
    Quiet State.frame (condElse env : Exec (State W Reg) Unit) := by
  apply Quiet.bind Quiet.get
  intro s
  apply Quiet.bind quiet_undoFlags
  intro _
  apply Quiet.ite (quiet_mapFlags _)
  exact Quiet.ite (quiet_mapFlags _) (Quiet.pure ())

theorem quiet_condEnd :
    Quiet State.frame (condEnd env : Exec (State W Reg) Unit) := by
  apply Quiet.bind Quiet.get
  intro s
  apply Quiet.ite
  · exact Quiet.ite (quiet_setMode _) (quiet_addNestLevel _)
  · exact Quiet.pure ()

theorem quiet_unmodified (chr : Gunichar)
    {action : Exec (State W Reg) Unit} (h : Quiet State.frame action) :
    Quiet State.frame (unmodified chr action) := by
  apply Quiet.bind Quiet.get
  intro s
  apply Quiet.ite (Quiet.throw _)
  apply Quiet.bind h
  intro _
  exact Quiet.pure _

theorem quiet_skipLoopOpen :
    Quiet State.frame
      (skipLoopOpen env : Exec (State W Reg) MainState) := by
  apply Quiet.bind (quiet_addNestLevel _)
  intro _
  exact Quiet.pure _

theorem quiet_skipLoopClose :
    Quiet State.frame
      (skipLoopClose env : Exec (State W Reg) MainState) := by
  apply Quiet.bind Quiet.get
  intro s
  apply Quiet.ite
  · apply Quiet.bind (quiet_setMode _)
    intro _
    exact Quiet.pure _
  · apply Quiet.bind (quiet_addNestLevel _)
    intro _
    exact Quiet.pure _

theorem quiet_atModifier (chr : Gunichar) :
    Quiet State.frame
      (atModifier env chr : Exec (State W Reg) MainState) := by
  apply Quiet.bind Quiet.get
  intro s
  apply Quiet.ite (Quiet.throw _)
  apply Quiet.bind quiet_undoFlags
  intro _
  apply Quiet.bind (quiet_mapFlags _)
  intro _
  exact Quiet.pure _

theorem quiet_colonModifier (chr : Gunichar) :
    Quiet State.frame
      (colonModifier env chr : Exec (State W Reg) MainState) := by
  apply Quiet.bind Quiet.get
  intro s
  apply Quiet.ite (Quiet.pure _)
  apply Quiet.ite (Quiet.throw _)
  apply Quiet.bind quiet_undoFlags
  intro _
  apply Quiet.bind (quiet_mapFlags _)
  intro _
  exact Quiet.pure _

theorem quiet_condValue (chr : Gunichar) :
    Quiet State.frame (condValue chr : Exec (State W Reg) TecoInt) := by
  apply Quiet.bind (quiet_onExpr _)
  intro _
  apply Quiet.bind Quiet.get
  intro s
  apply Quiet.ite (Quiet.pure _)
  exact Quiet.ite (Quiet.throw _) (quiet_onExpr _)

theorem quiet_skippedCondition (chr : Gunichar) :
    Quiet State.frame
      (match condition host chr 0 0 with
        | none => throw (invalidConditional chr)
        | some _ => pure MainState.start :
        Exec (State W Reg) MainState) := by
  split
  · exact Quiet.throw _
  · exact Quiet.pure _

theorem quiet_condcommandInput (chr : Gunichar) :
    Quiet State.frame (condcommandInput host env chr) := by
  apply Quiet.bind Quiet.get
  intro s
  apply Quiet.ite
  · apply Quiet.bind (quiet_condValue chr)
    intro value
    apply Quiet.bind Quiet.get
    intro t
    split
    · exact Quiet.throw _
    · exact Quiet.pure _
    · apply Quiet.bind (quiet_setMode _)
      intro _
      exact Quiet.pure _
  · apply Quiet.ite
    · exact Quiet.bind (quiet_addNestLevel _)
        (fun _ => quiet_skippedCondition chr)
    · exact quiet_skippedCondition chr

theorem quiet_ctlcInitial :
    Quiet State.frame (ctlcInitial env : Exec (State W Reg) Unit) :=
  Quiet.ite (Quiet.throw _) (Quiet.pure ())

theorem quiet_asciiInput (chr : Gunichar) :
    Quiet State.frame (asciiInput chr : Exec (State W Reg) MainState) := by
  apply Quiet.bind Quiet.get
  intro s
  apply Quiet.ite
  · apply Quiet.bind (quiet_onExpr _)
    intro _
    exact Quiet.pure _
  · exact Quiet.pure _

theorem quiet_print (radix : Nat) :
    Quiet State.frame (print env radix : Exec (State W Reg) Unit) := by
  apply Quiet.bind (quiet_onExpr _)
  intro _
  apply Quiet.bind Quiet.get
  intro s
  apply Quiet.ite (Quiet.throw _)
  split
  · exact Quiet.fault _
  · apply Quiet.bind quiet_evalColon
    intro colon
    exact quiet_interfaceMsg _ _

theorem quiet_popPrinted :
    Quiet State.frame (do
      let _ <- onExpr (Expressions.popNum 0)
      pure () : Exec (State W Reg) Unit) := by
  apply Quiet.bind (quiet_onExpr _)
  intro _
  exact Quiet.pure ()

theorem quiet_printInitial (radix : Nat) :
    Quiet State.frame
      (printInitial env radix : Exec (State W Reg) Unit) := by
  apply Quiet.bind Quiet.get
  intro s
  apply Quiet.ite (Quiet.pure ())
  apply Quiet.bind
  · exact Quiet.modify (fun _ => rfl)
  intro _
  exact Quiet.ite (quiet_print radix) (Quiet.pure ())

theorem quiet_printDeferred (radix : Nat) :
    Quiet State.frame
      (printDeferred env radix : Exec (State W Reg) Unit) := by
  apply Quiet.bind Quiet.get
  intro s
  apply Quiet.ite
  · exact Quiet.guard (quiet_print radix) (fun _ => quiet_popPrinted)
  · exact Quiet.pure ()

theorem quiet_printEndOfMacro (radix : Nat) :
    Quiet State.frame
      (printEndOfMacro env radix : Exec (State W Reg) Unit) := by
  apply Quiet.bind Quiet.get
  intro s
  apply Quiet.ite (Quiet.pure ())
  exact Quiet.bind (quiet_print radix) (fun _ => quiet_popPrinted)

theorem quiet_labelDone :
    Quiet State.frame (labelDone env : Exec (State W Reg) Unit) := by
  apply Quiet.bind Quiet.get
  intro s
  dsimp only
  split
  · apply Quiet.bind
    · exact Quiet.modify (fun _ => rfl)
    intro _
    apply Quiet.bind
    · exact quiet_undo (fun _ => rfl)
    intro _
    apply Quiet.ite
    · exact Quiet.bind quiet_clearGotoSkipLabel (fun _ => quiet_setMode _)
    · exact Quiet.pure ()
  · exact Quiet.ite (quiet_interfaceMsg _ _) (Quiet.pure ())

theorem quiet_labelInput (chr : Gunichar) :
    Quiet State.frame
      (labelInput env chr : Exec (State W Reg) MainState) := by
  apply Quiet.bind Quiet.get
  intro s
  apply Quiet.ite (Quiet.pure _)
  apply Quiet.ite (Quiet.pure _)
  apply Quiet.ite
  · apply Quiet.bind quiet_labelDone
    intro _
    apply Quiet.bind
    · exact quiet_undo (fun _ => rfl)
    intro _
    apply Quiet.bind
    · exact Quiet.modify (fun _ => rfl)
    intro _
    exact Quiet.pure _
  · apply Quiet.bind
    · exact quiet_undo (fun _ => rfl)
    intro _
    apply Quiet.bind
    · exact Quiet.modify (fun _ => rfl)
    intro _
    exact Quiet.pure _

theorem quiet_stateEndOfMacro (state : MainState) :
    Quiet State.frame
      (stateEndOfMacro env state : Exec (State W Reg) Unit) := by
  unfold stateEndOfMacro
  split
  · exact Quiet.pure ()
  · exact Quiet.pure ()
  · exact quiet_onExpr _
  · exact quiet_printEndOfMacro _
  · exact quiet_printEndOfMacro _
  · exact Quiet.throw _

theorem quiet_cmdlinePop [DecidableEq Reg] :
    Quiet State.frame (cmdlinePop host env) := by
  apply Quiet.bind Quiet.get
  intro s
  apply Quiet.ite (Quiet.throw _)
  exact Quiet.ite (Quiet.throw _) (Quiet.throw _)

end Parser
end SciTECO
