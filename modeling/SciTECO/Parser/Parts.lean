import SciTECO.Lib.Sequential
import SciTECO.Parser.StringArgument

/-!
# Conditions on what reads arguments

The string building machine and the specification machine consist of few kinds
of steps, and so do the callbacks of the states which read an argument.  A
condition which those steps satisfy holds of everything that is made of them.
-/

namespace SciTECO
namespace Parser

open Undoable
open QReg (Table)

variable {W Reg : Type} {host : Host W Reg} {env : Env}

/-- The steps of a reset satisfy conditions: `p` those of the string building
machine, `q` those of a specification. -/
structure ResetRules (env : Env)
    (p : Condition TecoError Fault (SBScope W Reg))
    (q : Condition TecoError Fault (SpecScope W Reg)) : Prop where
  building : Sequential p
  spec : Sequential q
  modifyCore : forall f, p Unit (modifyCore f)
  undoCore : forall f, p Unit (undoCore env f)
  modifySpec : forall f, q Unit (modifySpec f)
  undoSpec : forall f, q Unit (undoSpec env f)
  zoomSpec : forall {α : Type} {m : Exec (SpecScope W Reg) α}, q α m ->
    p α (zoom specLens.left m)
  zoomInner : forall {α : Type} {m : Exec (SBScope W Reg) α}, p α m ->
    q α (zoom innerLens.left m)

/-- So do the other steps. -/
structure MachineRules (host : Host W Reg) (env : Env)
    (p : Condition TecoError Fault (SBScope W Reg))
    (q : Condition TecoError Fault (SpecScope W Reg)) : Prop extends
    ResetRules env p q where
  throwBuilding : forall {α : Type} {code : ErrorCode} {message : String},
    code ≠ ErrorCode.returned ->
    p α (throw { code := code, message := message })
  throwSpec : forall {α : Type} {code : ErrorCode} {message : String},
    code ≠ ErrorCode.returned ->
    q α (throw { code := code, message := message })
  /-- The specification machine is allocated. -/
  allocate : forall core spec inner,
    p Unit (modify (fun s => (.withSpec core spec inner, s.2)))
  getInteger : forall reg, p TecoInt (onEditor (host.getInteger reg))
  getString : forall reg, p (Option Bytes) (onEditor (host.getString reg))
  create : forall table name, q Reg (onEditor (host.create table name))

variable {p : Condition TecoError Fault (SBScope W Reg)}
  {q : Condition TecoError Fault (SpecScope W Reg)}

/-!
## Resets
-/

section Resets

variable (hr : ResetRules env p q)

include hr

theorem rules_getCore : p _ (getCore : Exec (SBScope W Reg) SBCore) :=
  hr.building.bind hr.building.get (fun _ => hr.building.pure _)

theorem rules_getSpec :
    q _ (getSpec : Exec (SpecScope W Reg) (SpecCore Reg)) :=
  hr.spec.bind hr.spec.get (fun _ => hr.spec.pure _)

theorem rules_resetStringBuildingWith {m : Exec (SBScope W Reg) Unit}
    (h : p _ m) :
    p _ (resetStringBuildingWith env m) := by
  have hrest (core : SBCore) : p _ (do
      modifyCore (fun c => { c with current := SBState.start })
      m
      undoCore env (fun c => { c with mode := core.mode })
      modifyCore (fun c => { c with mode := SBMode.normal })) := by
    apply hr.building.bind (hr.modifyCore _)
    intro _
    apply hr.building.bind h
    intro _
    apply hr.building.bind (hr.undoCore _)
    intro _
    exact hr.modifyCore _
  apply hr.building.bind (rules_getCore hr)
  intro core
  apply hr.building.ite
  · exact hr.building.bind (hr.undoCore _) (fun _ => hrest core)
  · exact hrest core

theorem rules_resetQRegSpecWith {m : Exec (SBScope W Reg) Unit}
    (h : p _ m) : q _ (resetQRegSpecWith env m) := by
  have hrest (spec : SpecCore Reg) : q _ (do
      modifySpec (fun c => { c with current := SpecState.start })
      zoom innerLens.left m
      undoSpec env (fun c => { c with name := spec.name })
      undoSpec env (fun c => { c with nesting := spec.nesting })
      undoSpec env
        (fun c => { c with type := spec.type, parseOnly := spec.parseOnly })
      modifySpec (fun c =>
        { c with name := [], nesting := 0, resultTable := Table.globals })
      ) := by
    apply hr.spec.bind (hr.modifySpec _)
    intro _
    apply hr.spec.bind (hr.zoomInner h)
    intro _
    apply hr.spec.bind (hr.undoSpec _)
    intro _
    apply hr.spec.bind (hr.undoSpec _)
    intro _
    apply hr.spec.bind (hr.undoSpec _)
    intro _
    exact hr.modifySpec _
  apply hr.spec.bind (rules_getSpec hr)
  intro spec
  apply hr.spec.ite
  · exact hr.spec.bind (hr.undoSpec _) (fun _ => hrest spec)
  · exact hrest spec

theorem rules_resetStringBuilding (sb : StringBuilding Reg) :
    p _ (resetStringBuilding env sb :
      Exec (SBScope W Reg) Unit) := by
  induction sb with
  | plain core => exact rules_resetStringBuildingWith hr (hr.building.pure ())
  | withSpec core spec inner ih =>
      apply rules_resetStringBuildingWith hr
      exact hr.zoomSpec (rules_resetQRegSpecWith hr ih)

theorem rules_sbReset :
    p _ (sbReset env : Exec (SBScope W Reg) Unit) :=
  hr.building.choose (m := fun s => resetStringBuilding env s.1)
    (fun s => rules_resetStringBuilding hr s.1)

end Resets

/-!
## Characters
-/

section Characters

variable (hr : MachineRules host env p q)

include hr

theorem rules_specDone : q _ (specDone host) := by
  apply hr.spec.bind (rules_getSpec hr.toResetRules)
  intro spec
  apply hr.spec.ite (hr.spec.pure _)
  apply hr.spec.bind hr.spec.get
  intro s
  apply hr.spec.bind (hr.modifySpec _)
  intro _
  split
  · exact hr.throwSpec (by decide)
  · apply hr.spec.bind (hr.create _ _)
    intro reg
    apply hr.spec.bind (hr.modifySpec _)
    intro _
    exact hr.spec.pure _
  · exact hr.spec.pure _

theorem rules_specAppend (chr : Gunichar) :
    q _ (specAppend env chr : Exec (SpecScope W Reg) Unit) := by
  apply hr.spec.bind (rules_getSpec hr.toResetRules)
  intro spec
  apply hr.spec.ite (hr.spec.pure ())
  exact hr.spec.bind (hr.undoSpec _) (fun _ => hr.modifySpec _)

theorem rules_specStartGlobalInput (chr : Gunichar) :
    q _ (specStartGlobalInput host env chr) := by
  apply hr.spec.bind (rules_getSpec hr.toResetRules)
  intro spec
  split
  · exact hr.spec.pure _
  · exact hr.spec.pure _
  · apply hr.spec.bind (hr.undoSpec _)
    intro _
    apply hr.spec.bind (hr.modifySpec _)
    intro _
    exact hr.spec.pure _
  · exact hr.spec.bind (rules_specAppend hr _) (fun _ => rules_specDone hr)

theorem rules_specStartInput (chr : Gunichar) :
    q _ (specStartInput host env chr) := by
  apply hr.spec.bind (rules_getSpec hr.toResetRules)
  intro spec
  apply hr.spec.ite
  · apply hr.spec.bind (hr.undoSpec _)
    intro _
    apply hr.spec.bind (hr.modifySpec _)
    intro _
    exact hr.spec.pure _
  · exact rules_specStartGlobalInput hr chr

theorem rules_specStringInput
    {inner : Bool -> Exec (SBScope W Reg) Bytes}
    (hinner : forall result, p _ (inner result))
    (chr : Gunichar) :
    q _ (specStringInput host env inner chr) := by
  apply hr.spec.bind hr.spec.get
  intro s
  have hread : q _ (do
      let text <- zoom innerLens.left (inner (!s.1.core.parseOnly))
      modifySpec (fun c => { c with name := c.name ++ text })
      pure SpecState.string) := by
    apply hr.spec.bind (hr.zoomInner (hinner _))
    intro text
    apply hr.spec.bind (hr.modifySpec _)
    intro _
    exact hr.spec.pure _
  have hread' : q _ (do
      undoSpec env
        (fun c => { c with name := c.name.take s.1.core.name.length })
      let text <- zoom innerLens.left (inner (!s.1.core.parseOnly))
      modifySpec (fun c => { c with name := c.name ++ text })
      pure SpecState.string) :=
    hr.spec.bind (hr.undoSpec _) (fun _ => hread)
  have hfeed := hr.spec.ite (c := s.1.core.parseOnly = true) hread hread'
  dsimp only
  apply hr.spec.ite
  · apply hr.spec.bind (hr.undoSpec _)
    intro _
    exact hr.spec.bind (hr.modifySpec _) (fun _ => hfeed)
  · apply hr.spec.ite _ hfeed
    apply hr.spec.bind (hr.undoSpec _)
    intro _
    apply hr.spec.bind (hr.modifySpec _)
    intro _
    exact hr.spec.ite (rules_specDone hr) hfeed

theorem rules_specStateInput
    {inner : Bool -> Exec (SBScope W Reg) Bytes}
    (hinner : forall result, p _ (inner result))
    (chr : Gunichar) :
    q _ (specStateInput host env inner chr) := by
  apply hr.spec.bind (rules_getSpec hr.toResetRules)
  intro spec
  split
  · exact rules_specStartInput hr chr
  · exact rules_specStartGlobalInput hr chr
  · apply hr.spec.ite (hr.throwSpec (by decide))
    exact hr.spec.bind (rules_specAppend hr _) (fun _ => rules_specDone hr)
  · exact hr.spec.bind (rules_specAppend hr _) (fun _ => hr.spec.pure _)
  · exact hr.spec.bind (rules_specAppend hr _) (fun _ => rules_specDone hr)
  · exact rules_specStringInput hr hinner chr

theorem rules_specInput (wanted : Bool)
    {inner : Bool -> Exec (SBScope W Reg) Bytes}
    (hinner : forall result, p _ (inner result))
    (chr : Gunichar) :
    q _ (specInput host env wanted inner chr) := by
  have hrest : q _ (do
      let spec <- getSpec
      if spec.current = SpecState.start then
        pure (some (if wanted then spec.result else none,
          spec.resultTable))
      else
        pure none :
      Exec (SpecScope W Reg) (Option (Option Reg × Table))) := by
    apply hr.spec.bind (rules_getSpec hr.toResetRules)
    intro spec
    exact hr.spec.ite (hr.spec.pure _) (hr.spec.pure _)
  apply hr.spec.bind (hr.modifySpec _)
  intro _
  apply hr.spec.bind (rules_specStateInput hr hinner chr)
  intro next
  apply hr.spec.bind (rules_getSpec hr.toResetRules)
  intro spec
  apply hr.spec.ite _ hrest
  apply hr.spec.bind (hr.undoSpec _)
  intro _
  exact hr.spec.bind (hr.modifySpec _) (fun _ => hrest)

theorem rules_escapedInput (result : Bool) (chr : Gunichar) :
    p _ (escapedInput host result chr) := by
  apply hr.building.bind (rules_getCore hr.toResetRules)
  intro core
  exact hr.building.ite (hr.building.pure _) (hr.building.pure _)

theorem rules_ctlInput (result : Bool) (chr : Gunichar) :
    p _ (ctlInput env result chr :
      Exec (SBScope W Reg) (SBState × Bytes)) := by
  apply hr.building.bind (rules_getCore hr.toResetRules)
  intro core
  split
  case h_2 =>
      apply hr.building.bind (hr.undoCore _)
      intro _
      apply hr.building.bind (hr.modifyCore _)
      intro _
      exact hr.building.pure _
  case h_8 => exact hr.building.ite (hr.building.pure _) (hr.building.pure _)
  all_goals exact hr.building.pure _

theorem rules_sbStartInput (result : Bool) (chr : Gunichar) :
    p _ (sbStartInput host env result chr) := by
  apply hr.building.bind (rules_getCore hr.toResetRules)
  intro core
  apply hr.building.ite (rules_escapedInput hr _ _)
  apply hr.building.ite (hr.building.pure _)
  apply hr.building.ite (rules_escapedInput hr _ _)
  exact hr.building.ite (rules_ctlInput hr _ _) (rules_escapedInput hr _ _)

theorem rules_caseCtlInput (key : Char) (mode : SBMode) (result : Bool)
    (chr : Gunichar) :
    p _ (caseCtlInput env key mode result chr :
      Exec (SBScope W Reg) (SBState × Bytes)) := by
  apply hr.building.bind (rules_getCore hr.toResetRules)
  intro core
  apply hr.building.ite _ (hr.building.pure _)
  apply hr.building.ite _ (hr.building.pure _)
  apply hr.building.bind (hr.undoCore _)
  intro _
  exact hr.building.bind (hr.modifyCore _) (fun _ => hr.building.pure _)

theorem rules_caseInput (ctlState : SBState)
    {ctl : Bool -> Gunichar -> Exec (SBScope W Reg) (SBState × Bytes)}
    (hctl : forall result chr, p _ (ctl result chr))
    (fold : Gunichar -> Gunichar) (result : Bool) (chr : Gunichar) :
    p _ (caseInput ctlState ctl fold result chr) := by
  apply hr.building.bind (rules_getCore hr.toResetRules)
  intro core
  apply hr.building.ite (hr.building.pure _)
  exact hr.building.ite (hctl _ _) (hr.building.pure _)

theorem rules_ctleInput (result : Bool) (chr : Gunichar) :
    p _ (ctleInput host env result chr) := by
  have hprepare : p _ (prepareSpec host env) := by
    apply hr.building.bind hr.building.get
    intro s
    split
    · exact hr.zoomSpec
        (rules_resetQRegSpecWith hr.toResetRules
          (rules_resetStringBuilding hr.toResetRules _))
    · exact hr.allocate _ _ _
  apply hr.building.bind (rules_getCore hr.toResetRules)
  intro core
  split
  · exact hr.building.pure _
  · exact hr.building.bind hprepare (fun _ => hr.building.pure _)

theorem rules_ctleQRegInput (next : SBState)
    {expand : Reg -> Table -> Exec (SBScope W Reg) Bytes}
    {specMachine : Exec (SBScope W Reg) (Option (Option Reg × Table))}
    (hexpand : forall reg table, p _ (expand reg table))
    (hspec : p _ specMachine) (result : Bool) :
    p _ (ctleQRegInput next expand specMachine result) := by
  apply hr.building.bind hspec
  intro status
  split
  · exact hr.building.pure _
  · apply hr.building.ite _ (hr.building.pure _)
    split
    · exact hr.building.fault _
    · exact hr.building.bind (hexpand _ _) (fun _ => hr.building.pure _)

theorem rules_expandNum (reg : Reg) (table : Table) :
    p _ (expandNum host env reg table) := by
  apply hr.building.bind (hr.getInteger reg)
  intro value
  apply hr.building.bind hr.building.get
  intro s
  split
  · exact hr.building.fault _
  · exact hr.building.pure _

theorem rules_expandU (reg : Reg) (table : Table) :
    p _ (expandU host reg table) := by
  apply hr.building.bind (hr.getInteger reg)
  intro value
  apply hr.building.bind (rules_getCore hr.toResetRules)
  intro core
  split
  · exact hr.building.pure _
  · exact hr.throwBuilding (by decide)

theorem rules_expandQ (reg : Reg) (table : Table) :
    p _ (expandQ host reg table) := by
  apply hr.building.bind (hr.getString reg)
  intro str
  apply hr.building.bind (rules_getCore hr.toResetRules)
  intro core
  split
  · exact hr.building.fault _
  · exact hr.building.pure _

theorem rules_expandQuoted (quote : Bytes -> Bytes) (reg : Reg)
    (table : Table) :
    p _ (expandQuoted host quote reg table) := by
  apply hr.building.bind (hr.getString reg)
  intro str
  apply hr.building.ite (hr.throwBuilding (by decide))
  exact hr.building.bind (rules_getCore hr.toResetRules)
    (fun _ => hr.building.pure _)

theorem rules_ctleCodeInput (result : Bool) (chr : Gunichar) :
    p _ (ctleCodeInput host env result chr) := by
  apply hr.building.bind (rules_getCore hr.toResetRules)
  intro core
  apply hr.building.ite
  · apply hr.building.ite _ (hr.building.pure _)
    apply hr.building.ite (hr.throwBuilding (by decide))
    split
    · exact hr.throwBuilding (by decide)
    · apply hr.building.bind (hr.undoCore _)
      intro _
      exact hr.building.bind (hr.modifyCore _) (fun _ => hr.building.pure _)
  · apply hr.building.ite _ (hr.building.pure _)
    apply hr.building.bind (hr.undoCore _)
    intro _
    exact hr.building.bind (hr.modifyCore _) (fun _ => hr.building.pure _)

theorem rules_sbInputWith
    {specMachine : Exec (SBScope W Reg) (Option (Option Reg × Table))}
    (hspec : p _ specMachine) (result : Bool)
    (chr : Gunichar) :
    p _ (sbInputWith host env specMachine result chr) := by
  have hstate : p _
      (sbStateInput host env specMachine result chr) := by
    apply hr.building.bind (rules_getCore hr.toResetRules)
    intro core
    split
    · exact rules_sbStartInput hr _ _
    · exact rules_ctlInput hr _ _
    · exact rules_escapedInput hr _ _
    · exact rules_caseInput hr _ (rules_caseCtlInput hr _ _) _ _ _
    · exact rules_caseCtlInput hr _ _ _ _
    · exact rules_caseInput hr _ (rules_caseCtlInput hr _ _) _ _ _
    · exact rules_caseCtlInput hr _ _ _ _
    · exact rules_ctleInput hr _ _
    · exact rules_ctleQRegInput hr _ (rules_expandNum hr) hspec _
    · exact rules_ctleQRegInput hr _ (rules_expandU hr) hspec _
    · exact rules_ctleCodeInput hr _ _
    · exact rules_ctleQRegInput hr _ (rules_expandQ hr) hspec _
    · exact rules_ctleQRegInput hr _ (rules_expandQuoted hr _) hspec _
    · exact rules_ctleQRegInput hr _ (rules_expandQuoted hr _) hspec _
  apply hr.building.bind hstate
  intro step
  apply hr.building.bind (rules_getCore hr.toResetRules)
  intro core
  apply hr.building.ite _ (hr.building.pure _)
  apply hr.building.bind (hr.undoCore _)
  intro _
  exact hr.building.bind (hr.modifyCore _) (fun _ => hr.building.pure _)

theorem rules_sbInputOf (chr : Gunichar) (sb : StringBuilding Reg)
    (result : Bool) :
    p _ (sbInputOf host env chr sb result) := by
  induction sb generalizing result with
  | plain core =>
      rw [sbInputOf]
      exact rules_sbInputWith hr (hr.building.fault _) _ _
  | withSpec core spec inner ih =>
      rw [sbInputOf]
      apply rules_sbInputWith hr
      apply hr.zoomSpec
      exact rules_specInput hr _ ih _

theorem rules_sbInput (result : Bool) (chr : Gunichar) :
    p _ (sbInput host env result chr) :=
  hr.building.choose (m := fun s => sbInputOf host env chr s.1 result)
    (fun s => rules_sbInputOf hr chr s.1 result)

theorem rules_qregSpecInput (wanted : Bool) (chr : Gunichar) :
    q _ (qregSpecInput host env wanted chr) :=
  hr.spec.choose
    (m := fun s =>
      specInput host env wanted (sbInputOf host env chr s.1.stringbuilding)
        chr)
    (fun s => rules_specInput hr wanted
      (fun result => rules_sbInputOf hr chr s.1.stringbuilding result) chr)

end Characters

/-!
## Callbacks of arguments
-/

section Callbacks

/-- The steps of the callbacks which follow an argument satisfy a condition. -/
structure ArgumentRules (host : Host W Reg) (env : Env)
    (r : Condition TecoError Fault (State W Reg)) : Prop where
  steps : Sequential r
  throw : forall {α : Type} {code : ErrorCode} {message : String},
    code ≠ ErrorCode.returned ->
    r α (throw { code := code, message := message })
  popNumCalc : r TecoInt (onExpr (Expressions.popNumCalc 0))
  evalColon : r Nat (evalColon env)
  evalAt : r Bool (evalAt env)
  gotoLabel : forall label colon, r Unit (gotoLabel env label colon)
  interfaceMsg : forall severity text, r Unit (interfaceMsg severity text)
  expectqregReset : r Unit (expectqregReset env)
  getInteger : forall reg,
    r TecoInt (zoom editorLens (host.getInteger reg))
  bufferHook : r Unit (onHost (host.run .bufferHook env))
  gotRegister : forall cmd reg table modifierAt,
    r Unit (onHost (host.gotRegister cmd env reg table modifierAt))
  stringProcess : forall cmd codepage str newChars,
    r Unit (onHost (host.stringProcess cmd env codepage str newChars))
  stringDone : forall cmd qreg str,
    r Unit (onHost (host.stringDone cmd env qreg str))

/-- So do those of the callbacks in front of an argument. -/
structure InitialRules (host : Host W Reg) (env : Env)
    (r : Condition TecoError Fault (State W Reg)) : Prop extends
    ArgumentRules host env r where
  setCodepage : forall codepage, r Unit (setCodepage env codepage)
  setEscapeChar : forall chr, r Unit (setEscapeChar env chr)
  stringCodepage : forall cmd reg,
    r (Option Nat) (onHost (host.stringCodepage cmd env reg))
  stringInitial : forall cmd, r Unit (onHost (host.stringInitial cmd env))

variable {r : Condition TecoError Fault (State W Reg)}
  (hr : ArgumentRules host env r)

theorem rules_getMode (hr : Sequential r) :
    r _ (getMode : Exec (State W Reg) Mode) :=
  hr.bind hr.get (fun _ => hr.pure _)

theorem rules_stringInitial (hr : InitialRules host env r)
    (cmd : StringCommand) : r _ (stringInitial host env cmd) := by
  have hprint : r _ (printStringInitial host env) := by
    apply hr.steps.bind (hr.setEscapeChar _)
    intro _
    apply hr.steps.bind (rules_getMode hr.steps)
    intro mode
    apply hr.steps.ite (hr.steps.pure ())
    apply hr.steps.bind hr.evalColon
    intro colon
    exact hr.steps.bind hr.steps.get (fun _ => hr.setCodepage _)
  have hhost (cmd : StringCommand) :
      r _ (hostStringInitial host env cmd) := by
    apply hr.steps.bind (rules_getMode hr.steps)
    intro mode
    apply hr.steps.ite (hr.steps.pure ())
    apply hr.steps.bind hr.steps.get
    intro s
    apply hr.steps.bind (hr.stringCodepage _ _)
    intro codepage
    dsimp only
    split
    · exact hr.steps.bind (hr.setCodepage _) (fun _ => hr.stringInitial _)
    · exact hr.stringInitial _
  unfold stringInitial
  split
  · exact hprint
  · exact hr.steps.pure ()
  · apply hr.steps.ite (hhost _)
    apply hr.steps.bind hr.steps.get
    intro s
    exact hr.steps.ite (hr.setCodepage _) (hr.steps.pure ())

include hr

theorem rules_gotoDone (str : Bytes) : r _ (gotoDone env str) := by
  apply hr.steps.ite (hr.throw (by decide))
  apply hr.steps.bind hr.popNumCalc
  intro value
  apply hr.steps.bind hr.evalColon
  intro colon
  exact hr.steps.ite (hr.steps.pure ()) (hr.gotoLabel _ _)

theorem rules_stringProcess (cmd : StringCommand) :
    r _ (stringProcess host env cmd) := by
  have hfile (str : Bytes) (newChars : Nat) :
      r _ (expectfileProcess str newChars) := by
    apply hr.steps.ite (hr.steps.fault _)
    exact hr.steps.ite (hr.throw (by decide)) (hr.steps.pure ())
  apply hr.steps.bind hr.steps.get
  intro s
  apply hr.steps.ite (hr.steps.pure ())
  apply hr.steps.ite (hfile _ _)
  exact hr.steps.ite (hr.stringProcess _ _ _ _) (hr.steps.pure ())

theorem rules_hostStringDone (cmd : StringCommand)
    (qreg : Option (Option Reg × Table)) (str : Bytes) :
    r _ (hostStringDone host env cmd qreg str) := by
  apply hr.steps.bind (rules_getMode hr.steps)
  intro mode
  exact hr.steps.ite (hr.steps.pure ()) (hr.stringDone _ _ _)

theorem rules_replaceDone (cmd found notFound : StringCommand)
    (str : Bytes) : r _ (replaceDone host env cmd found notFound str) := by
  have hsearch : r _ (searchSucceeded host) := by
    apply hr.steps.bind hr.steps.get
    intro s
    split
    · exact hr.steps.fault _
    · exact hr.steps.bind (hr.getInteger _) (fun _ => hr.steps.pure _)
  apply hr.steps.bind (rules_getMode hr.steps)
  intro mode
  apply hr.steps.ite (hr.steps.pure _)
  apply hr.steps.bind (rules_hostStringDone hr _ _ _)
  intro _
  exact hr.steps.bind hsearch (fun _ => hr.steps.pure _)

theorem rules_replaceDefaultAllDone (str : Bytes) :
    r _ (replaceDefaultAllDone host env str) := by
  apply hr.steps.bind (rules_replaceDone hr _ _ _ _)
  intro next
  apply hr.steps.bind (rules_getMode hr.steps)
  intro mode
  apply hr.steps.ite (hr.steps.pure _)
  exact hr.steps.bind hr.bufferHook (fun _ => hr.steps.pure _)

theorem rules_qregStringDone (cmd : StringCommand) (str : Bytes) :
    r _ (qregStringDone host env cmd str) := by
  have hresults : r _ (expectqregResults :
      Exec (State W Reg) (Option Reg × Table)) := by
    apply hr.steps.bind hr.steps.get
    intro s
    split
    · exact hr.steps.fault _
    · exact hr.steps.pure _
  apply hr.steps.bind hresults
  intro qreg
  apply hr.steps.bind hr.expectqregReset
  intro _
  exact hr.steps.bind (rules_hostStringDone hr _ _ _)
    (fun _ => hr.steps.pure _)

theorem rules_stringDone (cmd : StringCommand) (str : Bytes) :
    r _ (stringDone host env cmd str) := by
  have hdone (cmd : StringCommand) (next : MainState) :
      r _ (do
        hostStringDone host env cmd none str
        pure next) :=
    hr.steps.bind (rules_hostStringDone hr _ _ _) (fun _ => hr.steps.pure _)
  unfold stringDone
  split
  · apply hr.steps.bind (rules_getMode hr.steps)
    intro mode
    apply hr.steps.ite (hr.steps.pure _)
    exact hr.steps.bind (rules_gotoDone hr _) (fun _ => hr.steps.pure _)
  · exact hr.steps.bind (hr.interfaceMsg _ _) (fun _ => hr.steps.pure _)
  · exact hr.steps.pure _
  · exact hr.steps.ite (hr.steps.pure _) (hdone _ _)
  · exact rules_replaceDone hr _ _ _ _
  · exact rules_replaceDone hr _ _ _ _
  · exact rules_replaceDefaultAllDone hr _
  · exact hdone _ _
  · exact hdone _ _
  · exact rules_qregStringDone hr _ _
  · exact rules_qregStringDone hr _ _
  · exact rules_qregStringDone hr _ _
  · exact rules_qregStringDone hr _ _
  · exact hdone _ _

theorem rules_gotRegister (cmd : QRegCommand) (qreg : Option Reg)
    (table : Table) : r _ (gotRegister host env cmd qreg table) := by
  have hhost (cmd : QRegCommand) (modifierAt : Bool) :
      r _ (hostGotRegister host env cmd qreg table modifierAt) := by
    apply hr.steps.bind (rules_getMode hr.steps)
    intro mode
    exact hr.steps.ite (hr.steps.pure ()) (hr.gotRegister _ _ _ _)
  unfold gotRegister
  split
  · exact hr.steps.pure _
  · exact hr.steps.pure _
  · exact hr.steps.pure _
  · exact hr.steps.pure _
  · apply hr.steps.bind hr.expectqregReset
    intro _
    exact hr.steps.bind (hhost _ _) (fun _ => hr.steps.pure _)
  · apply hr.steps.bind hr.expectqregReset
    intro _
    apply hr.steps.bind hr.evalAt
    intro modifierAt
    exact hr.steps.bind (hhost _ _) (fun _ => hr.steps.pure _)
  · apply hr.steps.bind hr.expectqregReset
    intro _
    exact hr.steps.bind (hhost _ _) (fun _ => hr.steps.pure _)

end Callbacks

end Parser
end SciTECO
