import SciTECO.Parser.Flow
import SciTECO.Parser.Parts

/-!
# Returning from a macro

`$$`, `^C` and `F>` outside of a loop raise `TECO_ERROR_RETURN`.  Nothing else
does: neither the expressions nor the arguments of commands, and the commands of
a host never pass it on.
-/

namespace SciTECO
namespace Parser

open Undoable
open QReg (Table)

variable {W Reg : Type} {host : Host W Reg} {env : Env}

/-- The error is no return. -/
def Stays (e : TecoError) : Prop := e.code ≠ ErrorCode.returned

theorem stays_throw {σ α : Type} {code : ErrorCode} {message : String}
    (h : code ≠ ErrorCode.returned) :
    Throws Stays
      (throw { code := code, message := message } : Exec σ α) :=
  Throws.throw h

theorem stays_undo {σ : Type} (token : σ -> σ) :
    Throws Stays (undo env token) :=
  Throws.ite (Throws.emit token) (Throws.pure ())

/-!
## Expressions
-/

theorem stays_popOp (index : Nat) :
    Throws Stays (Expressions.popOp index) := by
  apply Throws.bind Throws.get
  intro s
  apply Throws.ite _ (Throws.pure none)
  split
  · exact Throws.fault _
  · exact fun _ => trivial

theorem stays_pushInt (n : TecoInt) :
    Throws Stays (Expressions.pushInt n) := by
  intro s
  rw [Expressions.wp_pushInt]
  trivial

theorem stays_popNum (index : Nat) :
    Throws Stays (Expressions.popNum index) := by
  apply Throws.bind (stays_popOp 0)
  intro op
  apply Throws.ite _ (Throws.fault _)
  apply Throws.bind Throws.get
  intro s
  apply Throws.ite _ (Throws.pure 0)
  split
  · exact Throws.fault _
  · exact fun _ => trivial

theorem stays_ofExcept_applyOp (op : BinaryOp) (vleft vright : TecoInt) :
    Throws Stays (ofExcept (Expressions.applyOp op vleft vright) :
      Exec Expressions TecoInt) := by
  have hresult : forall e, Expressions.applyOp op vleft vright =
      .error (.error e) -> Stays e := by
    intro e h
    cases op <;> simp only [Expressions.applyOp, Expressions.division] at h <;>
      (repeat' split at h) <;> cases h <;> exact (by decide :
        ErrorCode.failed ≠ ErrorCode.returned)
  cases hcase : Expressions.applyOp op vleft vright with
  | ok v => exact Throws.pure v
  | error stop =>
      cases stop with
      | fault c => exact Throws.fault c
      | error e => exact Throws.throw (hresult e hcase)

theorem stays_calcTop : Throws Stays Expressions.calcTop := by
  apply Throws.bind Throws.get
  intro s
  apply Throws.ite _ (stays_throw (by decide))
  apply Throws.bind (stays_popNum 0)
  intro vright
  apply Throws.bind (stays_popOp 0)
  intro op
  apply Throws.bind Throws.get
  intro t
  apply Throws.ite _ (stays_throw (by decide))
  apply Throws.bind (stays_popNum 0)
  intro vleft
  split
  · apply Throws.bind (stays_ofExcept_applyOp _ _ _)
    intro result
    exact stays_pushInt result
  · exact Throws.fault _

theorem stays_pushCalc (op : BinaryOp) :
    Throws Stays (Expressions.pushCalc op) := by
  intro s
  apply Expressions.wp_pushCalc_of_invariant (fun _ => True) trivial
  · intro t _ _
    exact stays_calcTop t
  · intro t _ _
    trivial

theorem stays_eval (popBrace : Bool) :
    Throws Stays (Expressions.eval popBrace) := by
  intro s
  cases popBrace with
  | false =>
      apply Expressions.wp_eval_of_invariant (fun _ => True) trivial
      · intro t _ _
        exact stays_calcTop t
      · intro t _ _
        trivial
  | true =>
      rw [Expressions.wp_eval_true]
      apply Expressions.wp_eval_of_invariant (fun _ => True) trivial
      · intro t _ _
        exact stays_calcTop t
      · intro t _ _
        trivial

theorem stays_setNumSign (sign : Int) :
    Throws Stays (Expressions.setNumSign sign) := by
  intro s
  rw [Expressions.wp_setNumSign]
  trivial

theorem stays_popNumCalc (imply : TecoInt) :
    Throws Stays (Expressions.popNumCalc imply) := by
  have htake : Throws Stays (do
      let s <- Undoable.get
      if s.args > 0 then Expressions.popNum 0 else Pure.pure imply) := by
    apply Throws.bind Throws.get
    intro s
    exact Throws.ite (stays_popNum 0) (Throws.pure imply)
  apply Throws.bind (stays_eval false)
  intro _
  apply Throws.bind Throws.get
  intro s
  apply Throws.ite
  · exact Throws.bind (stays_setNumSign 1) (fun _ => htake)
  · exact htake

theorem stays_addDigit (radix : TecoInt) (digit : Nat) :
    Throws Stays (Expressions.addDigit radix digit) := by
  apply Throws.bind Throws.get
  intro s
  apply Throws.ite
  · exact Throws.bind (stays_popNum 0) (fun _ => stays_pushInt _)
  · exact Throws.bind (Throws.pure 0) (fun _ => stays_pushInt _)

theorem stays_discardArgs : Throws Stays Expressions.discardArgs := by
  have hloop (args : Nat) :
      Throws Stays (Expressions.discardArgsLoop args) := by
    induction args with
    | zero => exact Throws.pure ()
    | succ args ih =>
        exact Throws.bind (stays_popNumCalc 0) (fun _ => ih)
  apply Throws.bind (stays_eval false)
  intro _
  apply Throws.bind Throws.get
  intro s
  exact hloop _

theorem stays_braceOpen : Throws Stays Expressions.braceOpen := by
  intro s
  unfold Expressions.braceOpen
  rw [wp_bind, Expressions.wp_popNew]
  trivial

theorem stays_undoBraceLevel : Throws Stays Expressions.undoBraceLevel := by
  intro s
  rw [Expressions.wp_undoBraceLevel]
  trivial

theorem stays_braceClose : Throws Stays Expressions.braceClose := by
  apply Throws.bind Throws.get
  intro s
  apply Throws.ite (stays_throw (by decide))
  apply Throws.bind stays_undoBraceLevel
  intro _
  apply Throws.bind (Throws.modify _)
  intro _
  exact stays_eval true

theorem stays_braceReturn (keepBraces args : Nat) :
    Throws Stays (Expressions.braceReturn keepBraces args) := by
  have hpop (args : Nat) : Throws Stays (Expressions.popArgs args) := by
    induction args with
    | zero => exact Throws.pure []
    | succ args ih =>
        apply Throws.bind (stays_popNum 0)
        intro n
        apply Throws.bind ih
        intro rest
        exact Throws.pure _
  have hpush (ns : List TecoInt) : Throws Stays (Expressions.pushArgs ns) := by
    induction ns with
    | nil => exact Throws.pure ()
    | cons n rest ih =>
        exact Throws.bind (stays_pushInt n) (fun _ => ih)
  have hloop (levels : Nat) :
      Throws Stays (Expressions.braceReturnLoop levels) := by
    induction levels with
    | zero => exact Throws.pure ()
    | succ levels ih =>
        apply Throws.bind stays_discardArgs
        intro _
        apply Throws.bind (stays_eval true)
        intro _
        apply Throws.bind Throws.get
        intro s
        exact Throws.bind (Throws.modify _) (fun _ => ih)
  apply Throws.bind (hpop args)
  intro numbers
  apply Throws.bind stays_undoBraceLevel
  intro _
  apply Throws.bind Throws.get
  intro s
  exact Throws.bind (hloop _) (fun _ => hpush numbers)

/-!
## The two machines
-/

section Machines

theorem stays_modifyCore (f : SBCore -> SBCore) :
    Throws Stays (modifyCore f : Exec (SBScope W Reg) Unit) :=
  Throws.modify _

theorem stays_undoCore (f : SBCore -> SBCore) :
    Throws Stays (undoCore env f : Exec (SBScope W Reg) Unit) :=
  stays_undo _

theorem stays_getCore :
    Throws Stays (getCore : Exec (SBScope W Reg) SBCore) :=
  Throws.bind Throws.get (fun _ => Throws.pure _)

theorem stays_onEditor {σ α : Type} {m : Exec (Editor W) α}
    (h : NeverReturns m) :
    Throws Stays (onEditor m : Exec (σ × Editor W) α) :=
  Throws.zoom h

theorem resetRules_stays :
    ResetRules env
      (fun _ m => Throws Stays m :
        Condition TecoError Fault (SBScope W Reg))
      (fun _ m => Throws Stays m) where
  building := Sequential.throws Stays
  spec := Sequential.throws Stays
  modifyCore := stays_modifyCore
  undoCore := stays_undoCore
  modifySpec := fun _ => Throws.modify _
  undoSpec := fun _ => stays_undo _
  zoomSpec := Throws.zoom
  zoomInner := Throws.zoom

theorem machineRules_stays :
    MachineRules host env (fun _ m => Throws Stays m)
      (fun _ m => Throws Stays m) where
  toResetRules := resetRules_stays
  throwBuilding := stays_throw
  throwSpec := stays_throw
  allocate := fun _ _ _ => Throws.modify _
  getInteger := fun reg => stays_onEditor (host.getInteger_code reg)
  getString := fun reg => stays_onEditor (host.getString_code reg)
  create := fun table name => stays_onEditor (host.create_code table name)

theorem stays_sbReset :
    Throws Stays (sbReset env : Exec (SBScope W Reg) Unit) :=
  rules_sbReset resetRules_stays

theorem stays_sbInput (result : Bool) (chr : Gunichar) :
    Throws Stays (sbInput host env result chr) :=
  rules_sbInput machineRules_stays result chr

theorem stays_qregSpecInput (wanted : Bool) (chr : Gunichar) :
    Throws Stays (qregSpecInput host env wanted chr) :=
  rules_qregSpecInput machineRules_stays wanted chr

end Machines

end Parser
end SciTECO
