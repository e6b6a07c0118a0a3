import SciTECO.Lib.Frame
import SciTECO.Parser.SyntaxString

/-!
# What commands keep

In normal mode a command does its work on the editor and may jump, switch the
mode or consume the colon modifier.  It keeps the rest of the machine.
-/

namespace SciTECO
namespace Parser

open Undoable
open QReg (Table)

variable {W Reg : Type} {host : Host W Reg} {env : Env}

/-- The machine without its position, its mode and the colon modifier. -/
def Machine.fixed (m : Machine Reg) : Machine Reg :=
  { m with
    macroPc := 0
    flags := { m.flags with mode := Mode.normal, modifierColon := 0 } }

/-- What a command keeps. -/
def State.fixed (s : State W Reg) : Machine Reg × Bytes :=
  (s.machine.fixed, s.gotoSkipLabel)

/-!
## Helpers
-/

theorem keeps_undo {σ ρ : Type} {f : σ -> ρ} (token : σ -> σ) :
    Keeps f (undo env token) := by
  unfold undo
  apply Keeps.ite
  · exact Keeps.emit token
  · exact Keeps.pure ()

theorem keeps_onExpr {α : Type} (m : Exec Expressions α) :
    Keeps State.fixed (onExpr m : Exec (State W Reg) α) :=
  Keeps.zoom m (fun _ _ => rfl)

theorem keeps_onHost {α : Type} (m : Exec (Command W) α) :
    Keeps State.fixed (onHost m : Exec (State W Reg) α) :=
  Keeps.zoom m (fun _ _ => rfl)

theorem keeps_editor {α : Type} (m : Exec (Editor W) α) :
    Keeps State.fixed (zoom editorLens m : Exec (State W Reg) α) :=
  Keeps.zoom m (fun _ _ => rfl)

theorem keeps_interfaceMsg (severity : Severity) (text : Bytes) :
    Keeps State.fixed
      (interfaceMsg severity text : Exec (State W Reg) Unit) :=
  Keeps.modify (fun _ => rfl)

theorem keeps_undoFlags :
    Keeps State.fixed (undoFlags env : Exec (State W Reg) Unit) := by
  apply Keeps.bind Keeps.get
  intro s
  exact keeps_undo _

theorem keeps_setMode (mode : Mode) :
    Keeps State.fixed (setMode env mode : Exec (State W Reg) Unit) := by
  apply Keeps.bind keeps_undoFlags
  intro _
  exact Keeps.modify (fun _ => rfl)

theorem keeps_evalColon :
    Keeps State.fixed (evalColon env : Exec (State W Reg) Nat) := by
  apply Keeps.bind Keeps.get
  intro s
  apply Keeps.ite (Keeps.pure 0)
  apply Keeps.bind keeps_undoFlags
  intro _
  apply Keeps.bind
  · exact Keeps.modify (fun _ => rfl)
  · intro _
    exact Keeps.pure _

/-!
## Callbacks
-/

theorem keeps_setLoopStack (loops : List LoopContext) :
    Keeps State.fixed (setLoopStack loops : Exec (State W Reg) Unit) :=
  Keeps.modify (fun _ => rfl)

theorem keeps_loopOpen :
    Keeps State.fixed (loopOpen env : Exec (State W Reg) Unit) := by
  unfold loopOpen
  apply Keeps.bind (keeps_onExpr _)
  intro counter
  apply Keeps.bind Keeps.get
  intro s
  apply Keeps.bind keeps_evalColon
  intro colon
  apply Keeps.ite
  · apply Keeps.guard (keeps_onExpr _)
    intro _
    apply Keeps.bind Keeps.get
    intro t
    apply Keeps.bind (keeps_setLoopStack _)
    intro _
    exact Keeps.emit _
  · exact keeps_setMode _

theorem keeps_loopCloseArgs (loop : LoopContext) (colonModified : Bool) :
    Keeps State.fixed
      (loopCloseArgs loop colonModified : Exec (State W Reg) Unit) := by
  unfold loopCloseArgs
  apply Keeps.ite (Keeps.pure ())
  apply Keeps.ite
  · apply Keeps.bind (keeps_onExpr _)
    intro _
    exact Keeps.ite (keeps_onExpr _) (Keeps.pure ())
  · apply Keeps.bind (keeps_onExpr _)
    intro _
    exact Keeps.ite (keeps_onExpr _) (Keeps.pure ())

theorem keeps_loopClose :
    Keeps State.fixed (loopClose env : Exec (State W Reg) Unit) := by
  unfold loopClose
  apply Keeps.bind Keeps.get
  intro s
  split
  · exact Keeps.throw _
  · apply Keeps.ite (Keeps.throw _)
    apply Keeps.bind keeps_evalColon
    intro colon
    apply Keeps.bind (keeps_loopCloseArgs _ _)
    intro _
    apply Keeps.bind Keeps.get
    intro t
    apply Keeps.ite
    · apply Keeps.bind (Keeps.emit _)
      intro _
      exact keeps_setLoopStack _
    · apply Keeps.bind
      · exact Keeps.modify (fun _ => rfl)
      · intro _
        apply Keeps.ite (Keeps.pure ())
        apply Keeps.bind (keeps_undo _)
        intro _
        exact Keeps.modify (fun _ => rfl)

theorem keeps_loopBreak :
    Keeps State.fixed (loopBreak host env : Exec (State W Reg) Unit) := by
  unfold loopBreak
  apply Keeps.bind Keeps.get
  intro s
  split
  · exact Keeps.throw _
  · split
    · exact Keeps.fault _
    · apply Keeps.bind (keeps_editor _)
      intro v
      apply Keeps.bind (keeps_onExpr _)
      intro rc
      apply Keeps.bind keeps_evalColon
      intro colon
      apply Keeps.ite (Keeps.pure ())
      apply Keeps.bind Keeps.get
      intro t
      apply Keeps.bind (keeps_setLoopStack _)
      intro _
      apply Keeps.bind (keeps_onExpr _)
      intro _
      apply Keeps.guard (keeps_onExpr _)
      intro _
      apply Keeps.bind Keeps.get
      intro u
      apply Keeps.bind (Keeps.emit _)
      intro _
      exact keeps_setMode _

/-- The arguments are returned by an error. -/
theorem wp_returnArguments {post : Unit -> State W Reg -> Prop}
    {fail : TecoError -> State W Reg -> Prop} {bad : Fault -> Prop}
    {s : State W Reg} :
    wp (returnArguments : Exec (State W Reg) Unit) post fail bad s <->
      wp (Expressions.eval false)
        (fun _ e => fail errorReturn
          { s with
            machine := { s.machine with current := MainState.start }
            editor := { s.editor with expr := e }
            returnArgs := e.args })
        (fun err e => fail err
          { s with
            machine := { s.machine with current := MainState.start }
            editor := { s.editor with expr := e } })
        bad s.editor.expr := by
  unfold returnArguments onExpr
  simp only [wp_bind, wp_modify, wp_zoom, wp_throw]
  exact Iff.rfl

theorem keeps_returnArguments :
    Keeps State.fixed (returnArguments : Exec (State W Reg) Unit) := by
  intro s
  rw [wp_returnArguments]
  unfold wp
  split
  · trivial
  · trivial
  · trivial

theorem keeps_fcommandLoopStart :
    Keeps State.fixed (fcommandLoopStart env : Exec (State W Reg) Unit) := by
  unfold fcommandLoopStart
  apply Keeps.bind Keeps.get
  intro s
  split
  · apply Keeps.bind (keeps_onExpr _)
    intro _
    exact Keeps.modify (fun _ => rfl)
  case h_2 loop _ _ =>
    apply Keeps.bind keeps_evalColon
    intro colon
    have hjump : Keeps State.fixed (modify (State.mapMachine (fun m =>
        { m with macroPc := loop.pc })) : Exec (State W Reg) Unit) :=
      Keeps.modify (fun _ => rfl)
    apply Keeps.ite
    · exact Keeps.bind (Keeps.pure ()) (fun _ => hjump)
    · apply Keeps.ite
      · apply Keeps.bind (keeps_onExpr _)
        intro _
        exact Keeps.bind (keeps_onExpr _) (fun _ => hjump)
      · exact Keeps.bind (keeps_onExpr _) (fun _ => hjump)

theorem keeps_fcommandLoopEnd :
    Keeps State.fixed (fcommandLoopEnd env : Exec (State W Reg) Unit) := by
  unfold fcommandLoopEnd
  apply Keeps.bind Keeps.get
  intro s
  split
  · exact keeps_returnArguments
  · apply Keeps.bind keeps_loopClose
    intro _
    apply Keeps.bind Keeps.get
    intro t
    exact Keeps.ite (keeps_setMode _) (Keeps.pure ())

theorem keeps_cmdlinePush :
    Keeps State.fixed (cmdlinePush host env : Exec (State W Reg) Unit) :=
  Keeps.ite (keeps_onHost _) (Keeps.throw _)

theorem keeps_controlNegate :
    Keeps State.fixed (controlNegate : Exec (State W Reg) Unit) := by
  unfold controlNegate
  apply Keeps.bind (keeps_onExpr _)
  intro _
  apply Keeps.bind Keeps.get
  intro s
  apply Keeps.ite (Keeps.throw _)
  apply Keeps.bind (keeps_onExpr _)
  intro n
  exact keeps_onExpr _

/-!
## Look-ahead
-/

theorem keeps_tecoReturn :
    Keeps State.fixed (tecoReturn host env : Exec (State W Reg) Unit) := by
  unfold tecoReturn
  apply Keeps.bind Keeps.get
  intro s
  apply Keeps.ite (Keeps.fault _)
  exact Keeps.ite (Keeps.throw _) keeps_returnArguments

theorem keeps_condValue (chr : Gunichar) :
    Keeps State.fixed (condValue chr : Exec (State W Reg) TecoInt) := by
  unfold condValue
  apply Keeps.bind (keeps_onExpr _)
  intro _
  apply Keeps.bind Keeps.get
  intro s
  apply Keeps.ite (Keeps.pure 0)
  exact Keeps.ite (Keeps.throw _) (keeps_onExpr _)

theorem keeps_print (radix : Nat) :
    Keeps State.fixed (print env radix : Exec (State W Reg) Unit) := by
  unfold print
  apply Keeps.bind (keeps_onExpr _)
  intro _
  apply Keeps.bind Keeps.get
  intro s
  apply Keeps.ite (Keeps.throw _)
  split
  · exact Keeps.fault _
  · apply Keeps.bind keeps_evalColon
    intro colon
    exact keeps_interfaceMsg _ _

theorem keeps_printInitial (radix : Nat) :
    Keeps State.fixed (printInitial env radix : Exec (State W Reg) Unit) := by
  unfold printInitial
  apply Keeps.bind Keeps.get
  intro s
  apply Keeps.ite (Keeps.pure ())
  apply Keeps.bind
  · exact Keeps.modify (fun _ => rfl)
  · intro _
    exact Keeps.ite (keeps_print radix) (Keeps.pure ())

theorem keeps_printDeferred (radix : Nat) :
    Keeps State.fixed (printDeferred env radix : Exec (State W Reg) Unit) := by
  unfold printDeferred
  apply Keeps.bind Keeps.get
  intro s
  have hpop : Keeps State.fixed (do
      let _ <- onExpr (Expressions.popNum 0)
      pure () : Exec (State W Reg) Unit) := by
    apply Keeps.bind (keeps_onExpr _)
    intro _
    exact Keeps.pure ()
  apply Keeps.ite
  · exact Keeps.guard (keeps_print radix) (fun _ => hpop)
  · exact Keeps.pure ()

/-!
## All callbacks
-/

variable [DecidableEq Reg]

theorem keeps_cmdlinePop :
    Keeps State.fixed (cmdlinePop host env : Exec (State W Reg) Unit) := by
  apply Keeps.bind Keeps.get
  intro s
  apply Keeps.ite (Keeps.throw _)
  exact Keeps.ite (Keeps.throw _) (Keeps.throw _)

/-- Commands with a callback, whatever they do. -/
theorem keeps_runCallback (callback : Callback) :
    Keeps State.fixed
      (runCallback host env callback : Exec (State W Reg) Unit) := by
  cases callback with
  | mul => exact keeps_onExpr _
  | div => exact keeps_onExpr _
  | plus => exact keeps_onExpr _
  | minus => exact keeps_onExpr _
  | and => exact keeps_onExpr _
  | or => exact keeps_onExpr _
  | braceOpen => exact keeps_onExpr _
  | braceClose => exact keeps_onExpr _
  | comma => exact keeps_onExpr _
  | negate => exact keeps_controlNegate
  | pow => exact keeps_onExpr _
  | mod => exact keeps_onExpr _
  | xor => exact keeps_onExpr _
  | loopOpen => exact keeps_loopOpen
  | loopClose => exact keeps_loopClose
  | loopBreak => exact keeps_loopBreak
  | cmdlinePush => exact keeps_cmdlinePush
  | cmdlinePop => exact keeps_cmdlinePop
  | fcommandLoopStart => exact keeps_fcommandLoopStart
  | fcommandLoopEnd => exact keeps_fcommandLoopEnd
  | fcommandCondEnd => exact keeps_setMode _
  | fcommandCondElse => exact keeps_setMode _
  | macrofileDeprecated => exact keeps_interfaceMsg _ _
  | editor cmd => exact keeps_onHost _

end Parser
end SciTECO
