import SciTECO.Parser.Returns

/-!
# Returning from a macro: commands

A return is raised between two commands, in the normal mode, by `$$`, `^C` and
`F>` outside of a loop.
-/

namespace SciTECO
namespace Parser

open Undoable
open QReg (Table)

variable {W Reg : Type} {host : Host W Reg} {env : Env}

/-!
## Parts of commands
-/

theorem stays_onExpr {α : Type} {m : Exec Expressions α}
    (h : Throws Stays m) :
    Throws Stays (onExpr m : Exec (State W Reg) α) :=
  Throws.zoom h

theorem stays_onHost {α : Type} {m : Exec (Command W) α}
    (h : NeverReturns m) :
    Throws Stays (onHost m : Exec (State W Reg) α) :=
  Throws.zoom h

theorem stays_getInteger (reg : Reg) :
    Throws Stays (zoom editorLens (host.getInteger reg) :
      Exec (State W Reg) TecoInt) :=
  Throws.zoom (host.getInteger_code reg)

theorem stays_getMode :
    Throws Stays (getMode : Exec (State W Reg) Mode) :=
  Throws.bind Throws.get (fun _ => Throws.pure _)

theorem stays_interfaceMsg (severity : Severity) (text : Bytes) :
    Throws Stays
      (interfaceMsg severity text : Exec (State W Reg) Unit) :=
  Throws.modify _

theorem stays_undoFlags :
    Throws Stays (undoFlags env : Exec (State W Reg) Unit) :=
  Throws.bind Throws.get (fun _ => stays_undo _)

theorem stays_setMode (mode : Mode) :
    Throws Stays (setMode env mode : Exec (State W Reg) Unit) :=
  Throws.bind stays_undoFlags (fun _ => Throws.modify _)

theorem stays_evalColon :
    Throws Stays (evalColon env : Exec (State W Reg) Nat) := by
  apply Throws.bind Throws.get
  intro s
  apply Throws.ite (Throws.pure 0)
  apply Throws.bind stays_undoFlags
  intro _
  exact Throws.bind (Throws.modify _) (fun _ => Throws.pure _)

theorem stays_evalAt :
    Throws Stays (evalAt env : Exec (State W Reg) Bool) := by
  apply Throws.bind Throws.get
  intro s
  apply Throws.ite _ (Throws.pure false)
  apply Throws.bind stays_undoFlags
  intro _
  exact Throws.bind (Throws.modify _) (fun _ => Throws.pure _)

theorem stays_addNestLevel (change : Int) :
    Throws Stays (addNestLevel env change : Exec (State W Reg) Unit) := by
  apply Throws.bind Throws.get
  intro s
  exact Throws.bind (stays_undo _) (fun _ => Throws.modify _)

theorem stays_expectqregReset :
    Throws Stays (expectqregReset env : Exec (State W Reg) Unit) := by
  apply Throws.bind Throws.get
  intro s
  exact Throws.bind (stays_undo _) (fun _ => Throws.modify _)

theorem stays_expectqregInitial (cmd : QRegCommand) :
    Throws Stays (expectqregInitial env host cmd) := by
  have hnew (type : QRegType) :
      Throws Stays (expectqregNew env host type) := by
    apply Throws.bind Throws.get
    intro s
    exact Throws.bind (Throws.modify _) (fun _ => stays_undo _)
  apply Throws.bind Throws.get
  intro s
  split
  · exact hnew _
  · exact hnew _

theorem stays_setCodepage (codepage : Nat) :
    Throws Stays (setCodepage env codepage : Exec (State W Reg) Unit) := by
  apply Throws.zoom
  apply Throws.bind stays_getCore
  intro core
  exact Throws.bind (stays_undoCore _) (fun _ => stays_modifyCore _)

theorem stays_setEscapeChar (chr : Gunichar) :
    Throws Stays (setEscapeChar env chr : Exec (State W Reg) Unit) := by
  apply Throws.zoom
  apply Throws.bind stays_getCore
  intro core
  exact Throws.bind (stays_undoCore _) (fun _ => stays_modifyCore _)

/-!
## String arguments
-/

theorem stays_gotoLabel (label : Bytes) (colon : Bool) :
    Throws Stays (gotoLabel env label colon : Exec (State W Reg) Unit) := by
  apply Throws.bind Throws.get
  intro s
  split
  · exact Throws.modify _
  · apply Throws.ite
    · exact Throws.ite (Throws.pure ()) (stays_throw (by decide))
    · apply Throws.ite (Throws.fault _)
      apply Throws.bind (Throws.emit _)
      intro _
      apply Throws.bind (Throws.modify _)
      intro _
      apply Throws.bind (Throws.emit _)
      intro _
      exact Throws.bind (Throws.modify _) (fun _ => stays_setMode _)

theorem initialRules_stays :
    InitialRules host env (fun _ m => Throws Stays m) where
  steps := Sequential.throws Stays
  throw := stays_throw
  popNumCalc := stays_onExpr (stays_popNumCalc 0)
  evalColon := stays_evalColon
  evalAt := stays_evalAt
  gotoLabel := stays_gotoLabel
  interfaceMsg := stays_interfaceMsg
  expectqregReset := stays_expectqregReset
  getInteger := stays_getInteger
  bufferHook := stays_onHost (host.run_code _ _)
  gotRegister := fun _ _ _ _ => stays_onHost (host.gotRegister_code _ _ _ _ _)
  stringProcess := fun _ _ _ _ =>
    stays_onHost (host.stringProcess_code _ _ _ _ _)
  stringDone := fun _ _ _ => stays_onHost (host.stringDone_code _ _ _ _)
  setCodepage := stays_setCodepage
  setEscapeChar := stays_setEscapeChar
  stringCodepage := fun _ _ => stays_onHost (host.stringCodepage_code _ _ _)
  stringInitial := fun _ => stays_onHost (host.stringInitial_code _ _)

theorem stays_stringProcess (cmd : StringCommand) :
    Throws Stays (stringProcess host env cmd) :=
  rules_stringProcess initialRules_stays.toArgumentRules cmd

theorem stays_stringDone (cmd : StringCommand) (str : Bytes) :
    Throws Stays (stringDone host env cmd str) :=
  rules_stringDone initialRules_stays.toArgumentRules cmd str

theorem stays_countNesting (chr : Gunichar) :
    Throws Stays (countNesting host env chr) := by
  apply Throws.bind Throws.get
  intro s
  apply Throws.ite (Throws.pure ())
  exact Throws.bind (stays_undo _) (fun _ => Throws.modify _)

theorem stays_resetString (cmd : StringCommand) :
    Throws Stays (resetString env cmd : Exec (State W Reg) Unit) := by
  have hend (insertLen : Nat) : Throws Stays (do
      undo env (State.mapString (fun e => { e with insertLen := insertLen }))
      modify (State.mapString (fun e => { e with insertLen := 0 })) :
      Exec (State W Reg) Unit) :=
    Throws.bind (stays_undo _) (fun _ => Throws.modify _)
  have hbuilding (insertLen : Nat) : Throws Stays (do
      modify (State.mapString (fun e => { e with nesting := 1 }))
      if cmd.stringBuilding then zoom sbLens (sbReset env) else pure ()
      undo env (State.mapString (fun e => { e with insertLen := insertLen }))
      modify (State.mapString (fun e => { e with insertLen := 0 })) :
      Exec (State W Reg) Unit) := by
    apply Throws.bind (Throws.modify _)
    intro _
    dsimp only
    apply Throws.ite
    · exact Throws.bind (Throws.zoom stays_sbReset) (fun _ => hend _)
    · exact hend _
  apply Throws.bind Throws.get
  intro s
  apply Throws.bind (stays_undo _)
  intro _
  apply Throws.bind (Throws.modify _)
  intro _
  dsimp only
  apply Throws.ite
  · exact Throws.bind (stays_setEscapeChar _) (fun _ => hbuilding _)
  · apply Throws.ite
    · apply Throws.bind stays_undoFlags
      intro _
      exact Throws.bind (Throws.modify _) (fun _ => hbuilding _)
    · exact hbuilding _

/-- The first error is the one that is raised. -/
theorem stays_ensuring {σ α : Type} {m : Exec σ α}
    {finalizer : Exec σ Unit} (hm : Throws Stays m)
    (hfinalizer : Throws Stays finalizer) :
    Throws Stays (ensuring m finalizer) := by
  intro s
  rw [wp_ensuring]
  apply wp_mono (hm s)
  · intro _ t _
    exact hfinalizer t
  · intro e t he
    apply wp_call (hfinalizer t)
    intro _ _ _
    exact he
  · intro _ _
    trivial

theorem stays_finishString (cmd : StringCommand) :
    Throws Stays (finishString host env cmd) := by
  apply Throws.bind (stays_stringProcess cmd)
  intro _
  apply Throws.bind Throws.get
  intro s
  exact stays_ensuring (stays_stringDone cmd _) (stays_resetString cmd)

theorem stays_accumulateString (cmd : StringCommand) (chr : Gunichar) :
    Throws Stays (accumulateString host env cmd chr) := by
  have hcount (oldLen : Nat) : Throws Stays (do
      let s <- get
      undo env (State.mapString (fun e =>
        { e with insertLen := s.machine.expectstring.insertLen }))
      modify (State.mapString (fun e =>
        { e with insertLen := e.insertLen + (e.string.length - oldLen) }))
      pure (MainState.expectstring cmd) :
      Exec (State W Reg) MainState) := by
    apply Throws.bind Throws.get
    intro s
    apply Throws.bind (stays_undo _)
    intro _
    exact Throws.bind (Throws.modify _) (fun _ => Throws.pure _)
  have happend (oldLen : Nat) (normal : Bool) (text : Bytes) :
      Throws Stays (do
        if normal then
          modify (State.mapString (fun e =>
            { e with string := e.string ++ text }))
        else
          pure ()
        let s <- get
        undo env (State.mapString (fun e =>
          { e with insertLen := s.machine.expectstring.insertLen }))
        modify (State.mapString (fun e =>
          { e with insertLen := e.insertLen + (e.string.length - oldLen) }))
        pure (MainState.expectstring cmd) :
        Exec (State W Reg) MainState) := by
    dsimp only
    apply Throws.ite
    · exact Throws.bind (Throws.modify _) (fun _ => hcount _)
    · exact hcount _
  have htext (oldLen : Nat) (normal : Bool) : Throws Stays (do
      let text <-
        if cmd.stringBuilding then
          zoom sbLens (sbInput host env normal chr)
        else
          pure (unicharToUtf8 chr)
      if normal then
        modify (State.mapString (fun e =>
          { e with string := e.string ++ text }))
      else
        pure ()
      let s <- get
      undo env (State.mapString (fun e =>
        { e with insertLen := s.machine.expectstring.insertLen }))
      modify (State.mapString (fun e =>
        { e with insertLen := e.insertLen + (e.string.length - oldLen) }))
      pure (MainState.expectstring cmd) :
      Exec (State W Reg) MainState) := by
    dsimp only
    apply Throws.ite
    · exact Throws.bind (Throws.zoom (stays_sbInput _ _))
        (fun text => happend _ _ text)
    · exact Throws.bind (Throws.pure _) (fun text => happend _ _ text)
  apply Throws.bind Throws.get
  intro s
  dsimp only
  apply Throws.ite
  · exact Throws.bind (stays_undo _) (fun _ => htext _ _)
  · exact htext _ _

theorem stays_expectstringInput (cmd : StringCommand) (chr : Gunichar) :
    Throws Stays (expectstringInput host env cmd chr) := by
  apply Throws.bind Throws.get
  intro s
  apply Throws.ite (Throws.pure _)
  apply Throws.bind stays_evalAt
  intro modifierAt
  apply Throws.ite
  · exact Throws.bind (stays_setEscapeChar _) (fun _ => Throws.pure _)
  · apply Throws.bind (stays_countNesting _)
    intro _
    apply Throws.bind Throws.get
    intro t
    exact Throws.ite (stays_finishString _) (stays_accumulateString _ _)

theorem stays_expectqregInput (cmd : QRegCommand) (chr : Gunichar) :
    Throws Stays (expectqregInput host env cmd chr) := by
  apply Throws.bind Throws.get
  intro s
  split
  · exact Throws.fault _
  · apply Throws.bind (Throws.zoom (stays_qregSpecInput _ _))
    intro status
    split
    · exact Throws.pure _
    · exact rules_gotRegister initialRules_stays.toArgumentRules _ _ _

/-!
## Commands
-/

theorem stays_startMinus : Throws Stays Expressions.startMinus := by
  apply Throws.bind Throws.get
  intro s
  exact Throws.ite (stays_setNumSign _) (stays_pushCalc _)

theorem stays_startBraceOpen : Throws Stays Expressions.startBraceOpen := by
  apply Throws.bind Throws.get
  intro s
  apply Throws.ite _ stays_braceOpen
  apply Throws.bind (stays_setNumSign 1)
  intro _
  apply Throws.bind (stays_eval false)
  intro _
  apply Throws.bind (stays_pushInt (-1))
  intro _
  exact Throws.bind (stays_pushCalc _) (fun _ => stays_braceOpen)

theorem stays_startComma : Throws Stays Expressions.startComma := by
  apply Throws.bind (stays_eval false)
  intro _ s
  rw [Expressions.wp_pushOp]
  trivial

theorem stays_setLoopStack (loops : List LoopContext) :
    Throws Stays (setLoopStack loops : Exec (State W Reg) Unit) :=
  Throws.modify _

theorem stays_loopOpen :
    Throws Stays (loopOpen env : Exec (State W Reg) Unit) := by
  apply Throws.bind (stays_onExpr (stays_popNumCalc (-1)))
  intro counter
  apply Throws.bind Throws.get
  intro s
  apply Throws.bind stays_evalColon
  intro colon
  dsimp only
  apply Throws.ite _ (stays_setMode _)
  apply Throws.ite
  · apply Throws.bind Throws.get
    intro t
    exact Throws.bind (stays_setLoopStack _) (fun _ => Throws.emit _)
  · apply Throws.bind (stays_onExpr stays_braceOpen)
    intro _
    apply Throws.bind Throws.get
    intro t
    exact Throws.bind (stays_setLoopStack _) (fun _ => Throws.emit _)

theorem stays_loopCloseArgs (loop : LoopContext) (colonModified : Bool) :
    Throws Stays
      (loopCloseArgs loop colonModified : Exec (State W Reg) Unit) := by
  apply Throws.ite (Throws.pure ())
  apply Throws.ite
  · apply Throws.bind (stays_onExpr stays_braceClose)
    intro _
    exact Throws.ite (stays_onExpr stays_braceOpen) (Throws.pure ())
  · apply Throws.bind (stays_onExpr stays_discardArgs)
    intro _
    exact Throws.ite (stays_onExpr stays_braceClose) (Throws.pure ())

theorem stays_loopClose :
    Throws Stays (loopClose env : Exec (State W Reg) Unit) := by
  apply Throws.bind Throws.get
  intro s
  split
  · exact stays_throw (by decide)
  · apply Throws.ite (stays_throw (by decide))
    apply Throws.bind stays_evalColon
    intro colon
    apply Throws.bind (stays_loopCloseArgs _ _)
    intro _
    apply Throws.bind Throws.get
    intro t
    apply Throws.ite
    · exact Throws.bind (Throws.emit _) (fun _ => stays_setLoopStack _)
    · apply Throws.bind (Throws.modify _)
      intro _
      apply Throws.ite (Throws.pure ())
      exact Throws.bind (stays_undo _) (fun _ => Throws.modify _)

theorem stays_loopBreak : Throws Stays (loopBreak host env) := by
  apply Throws.bind Throws.get
  intro s
  split
  · exact stays_throw (by decide)
  · split
    · exact Throws.fault _
    · apply Throws.bind (stays_getInteger _)
      intro v
      apply Throws.bind (stays_onExpr (stays_popNumCalc v))
      intro rc
      apply Throws.bind stays_evalColon
      intro colon
      apply Throws.ite (Throws.pure ())
      apply Throws.bind Throws.get
      intro t
      apply Throws.bind (stays_setLoopStack _)
      intro _
      apply Throws.bind (stays_onExpr stays_discardArgs)
      intro _
      dsimp only
      apply Throws.ite
      · apply Throws.bind Throws.get
        intro u
        exact Throws.bind (Throws.emit _) (fun _ => stays_setMode _)
      · apply Throws.bind (stays_onExpr (stays_braceReturn _ _))
        intro _
        apply Throws.bind Throws.get
        intro u
        exact Throws.bind (Throws.emit _) (fun _ => stays_setMode _)

theorem stays_fcommandLoopStart :
    Throws Stays (fcommandLoopStart env : Exec (State W Reg) Unit) := by
  apply Throws.bind Throws.get
  intro s
  split
  · exact Throws.bind (stays_onExpr stays_discardArgs)
      (fun _ => Throws.modify _)
  · apply Throws.bind stays_evalColon
    intro colon
    dsimp only
    apply Throws.ite (Throws.modify _)
    apply Throws.ite
    · apply Throws.bind (stays_onExpr stays_braceClose)
      intro _
      exact Throws.bind (stays_onExpr stays_braceOpen)
        (fun _ => Throws.modify _)
    · exact Throws.bind (stays_onExpr stays_discardArgs)
        (fun _ => Throws.modify _)

theorem stays_controlNegate :
    Throws Stays (controlNegate : Exec (State W Reg) Unit) := by
  apply Throws.bind (stays_onExpr (stays_eval false))
  intro _
  apply Throws.bind Throws.get
  intro s
  apply Throws.ite (stays_throw (by decide))
  exact Throws.bind (stays_onExpr (stays_popNum 0))
    (fun _ => stays_onExpr (stays_pushInt _))

section Callbacks

variable [DecidableEq Reg]

theorem stays_runCallback {callback : Callback}
    (h : callback ≠ Callback.fcommandLoopEnd) :
    Throws Stays
      (runCallback host env callback : Exec (State W Reg) Unit) := by
  cases callback with
  | mul => exact stays_onExpr (stays_pushCalc _)
  | div => exact stays_onExpr (stays_pushCalc _)
  | plus => exact stays_onExpr (stays_pushCalc _)
  | minus => exact stays_onExpr stays_startMinus
  | and => exact stays_onExpr (stays_pushCalc _)
  | or => exact stays_onExpr (stays_pushCalc _)
  | braceOpen => exact stays_onExpr stays_startBraceOpen
  | braceClose => exact stays_onExpr stays_braceClose
  | comma => exact stays_onExpr stays_startComma
  | negate => exact stays_controlNegate
  | pow => exact stays_onExpr (stays_pushCalc _)
  | mod => exact stays_onExpr (stays_pushCalc _)
  | xor => exact stays_onExpr (stays_pushCalc _)
  | loopOpen => exact stays_loopOpen
  | loopClose => exact stays_loopClose
  | loopBreak => exact stays_loopBreak
  | cmdlinePush =>
      exact Throws.ite (stays_onHost (host.run_code _ _))
        (stays_throw (by decide))
  | cmdlinePop =>
      apply Throws.bind Throws.get
      intro s
      apply Throws.ite (stays_throw (by decide))
      exact Throws.ite (stays_throw (by decide)) (stays_throw (by decide))
  | fcommandLoopStart => exact stays_fcommandLoopStart
  | fcommandLoopEnd => exact absurd rfl h
  | fcommandCondEnd => exact stays_setMode _
  | fcommandCondElse => exact stays_setMode _
  | macrofileDeprecated => exact stays_interfaceMsg _ _
  | editor cmd => exact stays_onHost (host.run_code _ _)

/-- No command of the table is `F>`. -/
def NoLoopEnd (transitions : Char -> Option Transition) : Prop :=
  forall c entry, transitions c = some entry ->
    entry.callback ≠ some Callback.fcommandLoopEnd

theorem noLoopEnd_start : NoLoopEnd startTransitions := by
  intro c entry hentry
  unfold startTransitions at hentry
  split at hentry <;> cases hentry <;> exact fun h => nomatch h

theorem noLoopEnd_control : NoLoopEnd controlTransitions := by
  intro c entry hentry
  unfold controlTransitions at hentry
  split at hentry <;> cases hentry <;> exact fun h => nomatch h

theorem noLoopEnd_ecommand : NoLoopEnd ecommandTransitions := by
  intro c entry hentry
  unfold ecommandTransitions at hentry
  split at hentry <;> cases hentry <;> exact fun h => nomatch h

theorem stays_transitionInput {transitions : Char -> Option Transition}
    (htable : NoLoopEnd transitions) (chr : Gunichar) :
    Throws Stays (transitionInput host env transitions chr) := by
  apply Throws.bind Throws.get
  intro s
  split
  · exact stays_throw (by decide)
  case h_2 entry hentry =>
      rcases Option.bind_eq_some_iff.mp hentry with ⟨c, _, hc⟩
      apply Throws.ite (stays_throw (by decide))
      split
      case h_2 => exact Throws.pure _
      case h_1 callback hcallback =>
          have hother : callback ≠ Callback.fcommandLoopEnd := by
            intro h
            apply htable c entry hc
            rw [hcallback, h]
          apply Throws.ite _ (Throws.pure _)
          exact Throws.bind (stays_runCallback hother)
            (fun _ => Throws.pure _)

omit [DecidableEq Reg] in
theorem stays_unmodified (chr : Gunichar) {action : Exec (State W Reg) Unit}
    (h : Throws Stays action) : Throws Stays (unmodified chr action) := by
  apply Throws.bind Throws.get
  intro s
  apply Throws.ite (stays_throw (by decide))
  exact Throws.bind h (fun _ => Throws.pure _)

theorem stays_startInput (chr : Gunichar) :
    Throws Stays (startInput host env chr) := by
  have htable : Throws Stays (startTransition host env chr) :=
    stays_transitionInput noLoopEnd_start _
  have hword (cmd : Bool -> EditorCommand) :
      Throws Stays (wordCommand host env cmd) := by
    apply Throws.bind stays_evalAt
    intro modifierAt
    apply Throws.bind stays_getMode
    intro mode
    apply Throws.ite (Throws.pure _)
    exact Throws.bind (stays_onHost (host.run_code _ _))
      (fun _ => Throws.pure _)
  have hdigit : Throws Stays (digit host env chr) := by
    apply Throws.bind Throws.get
    intro s
    exact Throws.ite (stays_onExpr (stays_addDigit _ _)) (Throws.pure ())
  have helse : Throws Stays (condElse env : Exec (State W Reg) Unit) := by
    apply Throws.bind Throws.get
    intro s
    apply Throws.bind stays_undoFlags
    intro _
    exact Throws.ite (Throws.modify _)
      (Throws.ite (Throws.modify _) (Throws.pure ()))
  have hend : Throws Stays (condEnd env : Exec (State W Reg) Unit) := by
    apply Throws.bind Throws.get
    intro s
    apply Throws.ite _ (Throws.pure ())
    exact Throws.ite (stays_setMode _) (stays_addNestLevel _)
  have hopen : Throws Stays
      (skipLoopOpen env : Exec (State W Reg) MainState) :=
    Throws.bind (stays_addNestLevel _) (fun _ => Throws.pure _)
  have hclose : Throws Stays
      (skipLoopClose env : Exec (State W Reg) MainState) := by
    apply Throws.bind Throws.get
    intro s
    apply Throws.ite
    · exact Throws.bind (stays_setMode _) (fun _ => Throws.pure _)
    · exact Throws.bind (stays_addNestLevel _) (fun _ => Throws.pure _)
  have hat : Throws Stays
      (atModifier env chr : Exec (State W Reg) MainState) := by
    apply Throws.bind Throws.get
    intro s
    apply Throws.ite (stays_throw (by decide))
    apply Throws.bind stays_undoFlags
    intro _
    exact Throws.bind (Throws.modify _) (fun _ => Throws.pure _)
  have hcolon : Throws Stays
      (colonModifier env chr : Exec (State W Reg) MainState) := by
    apply Throws.bind Throws.get
    intro s
    apply Throws.ite (Throws.pure _)
    apply Throws.ite (stays_throw (by decide))
    apply Throws.bind stays_undoFlags
    intro _
    exact Throws.bind (Throws.modify _) (fun _ => Throws.pure _)
  apply Throws.bind Throws.get
  intro s
  apply Throws.ite (stays_unmodified chr (Throws.pure ()))
  apply Throws.ite (stays_unmodified chr hdigit)
  split
  · exact Throws.ite (Throws.pure _) htable
  · apply Throws.ite (stays_throw (by decide))
    exact Throws.ite hopen htable
  · apply Throws.ite (stays_throw (by decide))
    exact Throws.ite hclose htable
  · exact stays_unmodified chr helse
  · exact stays_unmodified chr hend
  · exact hword _
  · exact hword _
  · exact hword _
  · exact hword _
  · exact hword _
  · exact hword _
  · exact hword _
  · exact hword _
  · exact hat
  · exact hcolon
  · exact Throws.ite (stays_transitionInput noLoopEnd_control _) htable

end Callbacks

theorem stays_print (radix : Nat) :
    Throws Stays (print env radix : Exec (State W Reg) Unit) := by
  apply Throws.bind (stays_onExpr (stays_eval false))
  intro _
  apply Throws.bind Throws.get
  intro s
  apply Throws.ite (stays_throw (by decide))
  split
  · exact Throws.fault _
  · exact Throws.bind stays_evalColon (fun _ => stays_interfaceMsg _ _)

theorem stays_printPop :
    Throws Stays (do
      let _ <- onExpr (Expressions.popNum 0)
      pure () : Exec (State W Reg) Unit) :=
  Throws.bind (stays_onExpr (stays_popNum 0)) (fun _ => Throws.pure ())

theorem stays_printDeferred (radix : Nat) :
    Throws Stays (printDeferred env radix : Exec (State W Reg) Unit) := by
  apply Throws.bind Throws.get
  intro s
  apply Throws.ite _ (Throws.pure ())
  apply Throws.ite
  · exact stays_printPop
  · exact Throws.bind (stays_print _) (fun _ => stays_printPop)

theorem stays_stateInitial (state : MainState) :
    Throws Stays (stateInitial host env state) := by
  have hprint (radix : Nat) :
      Throws Stays (printInitial env radix : Exec (State W Reg) Unit) := by
    apply Throws.bind Throws.get
    intro s
    apply Throws.ite (Throws.pure ())
    apply Throws.bind (Throws.modify _)
    intro _
    exact Throws.ite (stays_print _) (Throws.pure ())
  cases state with
  | ctlc => exact Throws.ite (stays_throw (by decide)) (Throws.pure ())
  | printDecimal => exact hprint _
  | printOctal => exact hprint _
  | expectqreg cmd => exact stays_expectqregInitial cmd
  | expectstring cmd => exact rules_stringInitial initialRules_stays cmd
  | _ => exact Throws.pure ()

theorem stays_enterState (next : MainState) :
    Throws Stays (enterState host env next) := by
  apply Throws.bind Throws.get
  intro s
  apply Throws.ite (Throws.pure ())
  apply Throws.bind (stays_undo _)
  intro _
  exact Throws.bind (Throws.modify _) (fun _ => stays_stateInitial next)

theorem stays_labelInput (chr : Gunichar) :
    Throws Stays (labelInput env chr : Exec (State W Reg) MainState) := by
  have hclear : Throws Stays
      (clearGotoSkipLabel : Exec (State W Reg) Unit) := by
    apply Throws.bind Throws.get
    intro s
    apply Throws.bind (Throws.emit _)
    intro _
    apply Throws.bind (Throws.modify _)
    intro _
    exact Throws.bind (Throws.emit _) (fun _ => Throws.modify _)
  have hdone : Throws Stays (labelDone env : Exec (State W Reg) Unit) := by
    apply Throws.bind Throws.get
    intro s
    dsimp only
    split
    · apply Throws.bind (Throws.modify _)
      intro _
      apply Throws.bind (stays_undo _)
      intro _
      apply Throws.ite _ (Throws.pure ())
      exact Throws.bind hclear (fun _ => stays_setMode _)
    · exact Throws.ite (stays_interfaceMsg _ _) (Throws.pure ())
  apply Throws.bind Throws.get
  intro s
  apply Throws.ite (Throws.pure _)
  apply Throws.ite (Throws.pure _)
  apply Throws.ite
  · apply Throws.bind hdone
    intro _
    apply Throws.bind (stays_undo _)
    intro _
    exact Throws.bind (Throws.modify _) (fun _ => Throws.pure _)
  · apply Throws.bind (stays_undo _)
    intro _
    exact Throws.bind (Throws.modify _) (fun _ => Throws.pure _)

theorem stays_condcommandInput (chr : Gunichar) :
    Throws Stays (condcommandInput host env chr) := by
  have hvalue : Throws Stays
      (condValue chr : Exec (State W Reg) TecoInt) := by
    apply Throws.bind (stays_onExpr (stays_eval false))
    intro _
    apply Throws.bind Throws.get
    intro s
    apply Throws.ite (Throws.pure 0)
    exact Throws.ite (stays_throw (by decide)) (stays_onExpr (stays_popNum 0))
  have hinvalid : (invalidConditional chr).code ≠ ErrorCode.returned := by
    exact fun h => nomatch h
  apply Throws.bind Throws.get
  intro s
  apply Throws.ite
  · apply Throws.bind hvalue
    intro value
    apply Throws.bind Throws.get
    intro t
    split
    · exact Throws.throw hinvalid
    · exact Throws.pure _
    · exact Throws.bind (stays_setMode _) (fun _ => Throws.pure _)
  · dsimp only
    apply Throws.ite
    · apply Throws.bind (stays_addNestLevel _)
      intro _
      split
      · exact Throws.throw hinvalid
      · exact Throws.pure _
    · split
      · exact Throws.throw hinvalid
      · exact Throws.pure _

/-!
## Returning
-/

/-- The state behind a return.  The arguments are left on the stack. -/
structure Returned (s t : State W Reg) : Prop where
  mode : s.mode = Mode.normal
  state : exists e tokens,
    Expressions.eval false s.editor.expr = .ok () e tokens ∧
      t = { s with
        machine := { s.machine with current := MainState.start }
        editor := { s.editor with expr := e }
        returnArgs := e.args }

theorem Returned.current {s t : State W Reg} (h : Returned s t) :
    t.machine.current = MainState.start := by
  rcases h.state with ⟨_, _, _, rfl⟩
  rfl

theorem Returned.flow {s t : State W Reg} (h : Returned s t) :
    t.flow = s.flow := by
  rcases h.state with ⟨_, _, _, rfl⟩
  rfl

/-- The states in which a macro returns. -/
inductive Returning (s : State W Reg) : MainState -> Prop where
  | escape : Returning s MainState.escape
  | ctlc : Returning s MainState.ctlc
  | ctlcControl : Returning s MainState.ctlcControl
  | fcommand (h : s.ownLoops = []) : Returning s MainState.fcommand

/-- The computation returns as macros do, under a condition. -/
def Returns {α : Type} (p : Prop) (m : Exec (State W Reg) α)
    (s : State W Reg) : Prop :=
  wp m (fun _ _ => True)
    (fun e t => e.code = ErrorCode.returned -> Returned s t ∧ p)
    (fun _ => True) s

namespace Returns

variable {α β : Type} {p : Prop} {s : State W Reg}

theorem of_stays {m : Exec (State W Reg) α} (h : Throws Stays m) :
    Returns p m s := by
  apply wp_mono (h s)
  · exact fun _ _ _ => trivial
  · exact fun _ _ hstays hcode => absurd hcode hstays
  · exact fun _ _ => trivial

theorem andThen {m : Exec (State W Reg) α}
    {g : α -> Exec (State W Reg) β} (hm : Returns p m s)
    (hg : forall a, Throws Stays (g a)) : Returns p (m >>= g) s := by
  unfold Returns
  rw [wp_bind]
  apply wp_mono hm
  · intro a t _
    apply wp_mono (hg a t)
    · exact fun _ _ _ => trivial
    · exact fun _ _ hstays hcode => absurd hcode hstays
    · exact fun _ _ => trivial
  · exact fun _ _ h => h
  · exact fun _ _ => trivial

theorem ite {c : Prop} [Decidable c] {m n : Exec (State W Reg) α}
    (hm : c -> Returns p m s) (hn : ¬ c -> Returns p n s) :
    Returns p (if c then m else n) s := by
  split
  case isTrue h => exact hm h
  case isFalse h => exact hn h

theorem get {g : State W Reg -> Exec (State W Reg) α}
    (h : Returns p (g s) s) : Returns p (Undoable.get >>= g) s := by
  unfold Returns
  rw [wp_bind, wp_get]
  exact h

end Returns

theorem returns_returnArguments {p : Prop} (s : State W Reg) (hp : p)
    (hmode : s.mode = Mode.normal) :
    Returns p (returnArguments : Exec (State W Reg) Unit) s := by
  unfold Returns returnArguments onExpr
  rw [wp_bind, wp_modify, wp_bind, wp_zoom]
  have hexpr : exprLens.get (s.mapMachine (fun m =>
      { m with current := MainState.start })) = s.editor.expr := rfl
  rw [hexpr]
  have heval : wp (Expressions.eval false)
      (fun _ e => exists tokens,
        Expressions.eval false s.editor.expr = .ok () e tokens)
      (fun e _ => Stays e) (fun _ => True) s.editor.expr := by
    have hstays := stays_eval false s.editor.expr
    unfold wp at hstays ⊢
    cases hrun : Expressions.eval false s.editor.expr with
    | ok value e tokens => exact ⟨tokens, rfl⟩
    | error e t tokens =>
        rw [hrun] at hstays
        exact hstays
    | fault c => trivial
  apply wp_mono heval
  · rintro _ e ⟨tokens, heval⟩
    rw [wp_bind, wp_modify, wp_throw]
    intro _
    exact ⟨⟨hmode, e, tokens, heval, rfl⟩, hp⟩
  · exact fun _ _ hstays hcode => absurd hcode hstays
  · exact fun _ _ => trivial

theorem returns_tecoReturn {p : Prop} (s : State W Reg) (hp : p) :
    Returns p (tecoReturn host env) s := by
  apply Returns.get
  apply Returns.ite (fun _ => Returns.of_stays (Throws.fault _))
  intro hmode
  apply Returns.ite
  · intro _
    exact Returns.of_stays (stays_throw (by decide))
  · intro _
    exact returns_returnArguments s hp (not_not.mp hmode)

theorem returns_fcommandLoopEnd (s : State W Reg)
    (hmode : s.mode = Mode.normal) :
    Returns (Returning s MainState.fcommand)
      (fcommandLoopEnd env : Exec (State W Reg) Unit) s := by
  apply Returns.get
  split
  case h_1 hown =>
      exact returns_returnArguments s (Returning.fcommand hown) hmode
  case h_2 =>
      apply Returns.of_stays
      apply Throws.bind stays_loopClose
      intro _
      apply Throws.bind Throws.get
      intro t
      exact Throws.ite (stays_setMode _) (Throws.pure ())

section Callbacks

variable [DecidableEq Reg]

theorem returns_fcommandInput (s : State W Reg) (chr : Gunichar) :
    Returns (Returning s MainState.fcommand) (fcommandInput host env chr)
      s := by
  apply Returns.get
  split
  · exact Returns.of_stays (stays_throw (by decide))
  case h_2 entry _ =>
      apply Returns.ite
      · exact fun _ => Returns.of_stays (stays_throw (by decide))
      intro _
      split
      case h_2 => exact Returns.of_stays (Throws.pure _)
      case h_1 callback _ =>
          apply Returns.ite _
            (fun _ => Returns.of_stays (Throws.pure _))
          intro hmode
          have hrun : Returns (Returning s MainState.fcommand)
              (runCallback host env callback) s := by
            by_cases hend : callback = Callback.fcommandLoopEnd
            · rw [hend]
              exact returns_fcommandLoopEnd s hmode
            · exact Returns.of_stays (stays_runCallback hend)
          exact hrun.andThen (fun _ => Throws.pure _)

theorem returns_ctlcControlInput {p : Prop} (s : State W Reg) (hp : p)
    (chr : Gunichar) : Returns p (ctlcControlInput host env chr) s := by
  apply Returns.get
  apply Returns.ite
  · intro _
    apply Returns.of_stays
    apply Throws.ite (Throws.pure _)
    apply Throws.ite (stays_throw (by decide))
    exact Throws.bind (stays_onExpr (stays_eval false))
      (fun _ => stays_throw (by decide))
  · intro _
    apply Returns.ite
    · intro _
      exact (returns_tecoReturn s hp).andThen (fun _ => Throws.pure _)
    · intro _
      exact Returns.of_stays (stays_transitionInput noLoopEnd_control _)

theorem returns_stateInput (s : State W Reg) (state : MainState)
    (chr : Gunichar) :
    Returns (Returning s state) (stateInput host env state chr) s := by
  cases state with
  | start => exact Returns.of_stays (stays_startInput chr)
  | fcommand => exact returns_fcommandInput s chr
  | condcommand => exact Returns.of_stays (stays_condcommandInput chr)
  | control =>
      exact Returns.of_stays (stays_transitionInput noLoopEnd_control _)
  | ascii =>
      apply Returns.of_stays
      apply Throws.bind Throws.get
      intro s
      apply Throws.ite _ (Throws.pure _)
      exact Throws.bind (stays_onExpr (stays_pushInt _))
        (fun _ => Throws.pure _)
  | escape =>
      apply Returns.get
      apply Returns.ite
      · intro _
        apply Returns.ite
        · intro _
          exact (returns_tecoReturn s Returning.escape).andThen
            (fun _ => Throws.pure _)
        · exact fun _ => Returns.of_stays (Throws.pure _)
      · intro _
        apply Returns.of_stays
        apply Throws.ite _ (stays_startInput chr)
        exact Throws.bind (stays_onExpr stays_discardArgs)
          (fun _ => stays_startInput chr)
  | ctlc =>
      apply Returns.get
      apply Returns.ite (fun _ =>
        returns_ctlcControlInput s Returning.ctlc _)
      intro _
      apply Returns.ite (fun _ => Returns.of_stays (Throws.pure _))
      intro _
      apply Returns.ite
      · intro _
        exact (returns_tecoReturn s Returning.ctlc).andThen
          (fun _ => Throws.pure _)
      · exact fun _ => Returns.of_stays (stays_startInput chr)
  | ctlcControl => exact returns_ctlcControlInput s Returning.ctlcControl chr
  | ecommand =>
      exact Returns.of_stays (stays_transitionInput noLoopEnd_ecommand _)
  | label => exact Returns.of_stays (stays_labelInput chr)
  | blockcomment => exact Returns.of_stays (Throws.pure _)
  | blockcommentStar => exact Returns.of_stays (Throws.pure _)
  | eolcomment => exact Returns.of_stays (Throws.pure _)
  | printDecimal =>
      apply Returns.of_stays
      apply Throws.ite (Throws.pure _)
      exact Throws.bind (stays_printDeferred _)
        (fun _ => stays_startInput chr)
  | printOctal =>
      apply Returns.of_stays
      apply Throws.bind Throws.get
      intro s
      apply Throws.ite
      · apply Throws.ite _ (Throws.pure _)
        apply Throws.bind (stays_print _)
        intro _
        exact Throws.bind (stays_onExpr (stays_popNum 0))
          (fun _ => Throws.pure _)
      · exact Throws.bind (stays_printDeferred _)
          (fun _ => stays_startInput chr)
  | expectqreg cmd => exact Returns.of_stays (stays_expectqregInput cmd chr)
  | expectstring cmd =>
      exact Returns.of_stays (stays_expectstringInput cmd chr)

theorem returns_machineInput (s : State W Reg) (chr : Gunichar) :
    Returns (Returning s s.machine.current) (machineInput host env chr)
      s := by
  apply Returns.get
  exact (returns_stateInput s _ chr).andThen
    (fun next => stays_enterState next)

end Callbacks

end Parser
end SciTECO
