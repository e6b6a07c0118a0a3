import SciTECO.Lib.Quiet
import SciTECO.Parser.Execution

/-!
# Reading arguments

The machines for string building and register names touch nothing of the
editor but registers, and so do their undo tokens.
-/

namespace SciTECO
namespace Parser

open Undoable
open QReg (Table)

variable {W Reg ρ : Type}

/-- Looking up registers and reading their contents leaves a part of the editor
alone. -/
structure Host.ReadsOnly (host : Host W Reg) (g : Editor W -> ρ) :
    Prop where
  create : forall table name, Quiet g (host.create table name)
  getInteger : forall reg, Quiet g (host.getInteger reg)
  getString : forall reg, Quiet g (host.getString reg)

theorem quiet_undo {σ : Type} {f : σ -> ρ} {env : Env} {token : σ -> σ}
    (h : forall s, f (token s) = f s) : Quiet f (undo env token) := by
  unfold undo
  apply Quiet.ite
  · exact Quiet.emit h
  · exact Quiet.pure ()

/-!
## The two machines
-/

section Machines

variable {host : Host W Reg} {env : Env} {g : Editor W -> ρ}

/-- The part `g` of the editor next to a machine. -/
def besides {σ : Type} (g : Editor W -> ρ) (s : σ × Editor W) : ρ := g s.2

theorem quiet_modifyCore (f : SBCore -> SBCore) :
    Quiet (besides g) (modifyCore f : Exec (SBScope W Reg) Unit) :=
  Quiet.modify (fun _ => rfl)

theorem quiet_undoCore (f : SBCore -> SBCore) :
    Quiet (besides g) (undoCore env f : Exec (SBScope W Reg) Unit) :=
  quiet_undo (fun _ => rfl)

theorem quiet_getCore :
    Quiet (besides g) (getCore : Exec (SBScope W Reg) SBCore) := by
  apply Quiet.bind Quiet.get
  intro s
  exact Quiet.pure _

theorem quiet_modifySpec (f : SpecCore Reg -> SpecCore Reg) :
    Quiet (besides g) (modifySpec f : Exec (SpecScope W Reg) Unit) :=
  Quiet.modify (fun _ => rfl)

theorem quiet_undoSpec (f : SpecCore Reg -> SpecCore Reg) :
    Quiet (besides g) (undoSpec env f : Exec (SpecScope W Reg) Unit) :=
  quiet_undo (fun _ => rfl)

theorem quiet_getSpec :
    Quiet (besides g) (getSpec : Exec (SpecScope W Reg) (SpecCore Reg)) := by
  apply Quiet.bind Quiet.get
  intro s
  exact Quiet.pure _

theorem quiet_onEditor {σ α : Type} {m : Exec (Editor W) α}
    (h : Quiet g m) :
    Quiet (besides g) (onEditor m : Exec (σ × Editor W) α) :=
  Quiet.zoom h (fun _ _ => rfl) (fun _ => rfl)

/-- A machine within another one. -/
theorem quiet_left {σ τ α : Type} {l : Lens σ τ}
    {m : Exec (τ × Editor W) α} (h : Quiet (besides g) m) :
    Quiet (besides g) (zoom l.left m : Exec (σ × Editor W) α) :=
  Quiet.zoom h (fun _ _ => rfl) (fun _ => rfl)

theorem quiet_resetStringBuildingWith {m : Exec (SBScope W Reg) Unit}
    (h : Quiet (besides g) m) :
    Quiet (besides g) (resetStringBuildingWith env m) := by
  have hrest : forall core : SBCore, Quiet (besides g) (do
      modifyCore (fun c => { c with current := SBState.start })
      m
      undoCore env (fun c => { c with mode := core.mode })
      modifyCore (fun c => { c with mode := SBMode.normal })) := by
    intro core
    apply Quiet.bind (quiet_modifyCore _)
    intro _
    apply Quiet.bind h
    intro _
    apply Quiet.bind (quiet_undoCore _)
    intro _
    exact quiet_modifyCore _
  apply Quiet.bind quiet_getCore
  intro core
  apply Quiet.ite
  · apply Quiet.bind (quiet_undoCore _)
    intro _
    exact hrest core
  · exact hrest core

theorem quiet_resetQRegSpecWith {m : Exec (SBScope W Reg) Unit}
    (h : Quiet (besides g) m) :
    Quiet (besides g) (resetQRegSpecWith env m) := by
  have hrest : forall spec : SpecCore Reg, Quiet (besides g) (do
      modifySpec (fun c => { c with current := SpecState.start })
      zoom innerLens.left m
      undoSpec env (fun c => { c with name := spec.name })
      undoSpec env (fun c => { c with nesting := spec.nesting })
      undoSpec env
        (fun c => { c with type := spec.type, parseOnly := spec.parseOnly })
      modifySpec (fun c =>
        { c with name := [], nesting := 0, resultTable := Table.globals })
      ) := by
    intro spec
    apply Quiet.bind (quiet_modifySpec _)
    intro _
    apply Quiet.bind (quiet_left h)
    intro _
    apply Quiet.bind (quiet_undoSpec _)
    intro _
    apply Quiet.bind (quiet_undoSpec _)
    intro _
    apply Quiet.bind (quiet_undoSpec _)
    intro _
    exact quiet_modifySpec _
  apply Quiet.bind quiet_getSpec
  intro spec
  apply Quiet.ite
  · apply Quiet.bind (quiet_undoSpec _)
    intro _
    exact hrest spec
  · exact hrest spec

theorem quiet_resetStringBuilding (sb : StringBuilding Reg) :
    Quiet (besides g) (resetStringBuilding env sb :
      Exec (SBScope W Reg) Unit) := by
  induction sb with
  | plain core => exact quiet_resetStringBuildingWith (Quiet.pure ())
  | withSpec core spec inner ih =>
      apply quiet_resetStringBuildingWith
      apply quiet_left
      exact quiet_resetQRegSpecWith ih

theorem quiet_sbReset :
    Quiet (besides g) (sbReset env : Exec (SBScope W Reg) Unit) :=
  fun s => quiet_resetStringBuilding s.1 s

/-!
## Register names
-/

variable (hhost : host.ReadsOnly g)
include hhost

theorem quiet_specDone : Quiet (besides g) (specDone host) := by
  apply Quiet.bind quiet_getSpec
  intro spec
  apply Quiet.ite
  · exact Quiet.pure _
  · apply Quiet.bind Quiet.get
    intro s
    apply Quiet.bind (quiet_modifySpec _)
    intro _
    split
    · exact Quiet.throw _
    · apply Quiet.bind (quiet_onEditor (hhost.create _ _))
      intro reg
      apply Quiet.bind (quiet_modifySpec _)
      intro _
      exact Quiet.pure _
    · exact Quiet.pure _

omit hhost in
theorem quiet_specAppend (chr : Gunichar) :
    Quiet (besides g)
      (specAppend env chr : Exec (SpecScope W Reg) Unit) := by
  apply Quiet.bind quiet_getSpec
  intro spec
  apply Quiet.ite
  · exact Quiet.pure ()
  · apply Quiet.bind (quiet_undoSpec _)
    intro _
    exact quiet_modifySpec _

theorem quiet_specAppendDone (chr : Gunichar) :
    Quiet (besides g) (do
      specAppend env chr
      specDone host) := by
  apply Quiet.bind (quiet_specAppend _)
  intro _
  exact quiet_specDone hhost

theorem quiet_specStartGlobalInput (chr : Gunichar) :
    Quiet (besides g) (specStartGlobalInput host env chr) := by
  apply Quiet.bind quiet_getSpec
  intro spec
  split
  · exact Quiet.pure _
  · exact Quiet.pure _
  · apply Quiet.bind (quiet_undoSpec _)
    intro _
    apply Quiet.bind (quiet_modifySpec _)
    intro _
    exact Quiet.pure _
  · exact quiet_specAppendDone hhost _

theorem quiet_specStartInput (chr : Gunichar) :
    Quiet (besides g) (specStartInput host env chr) := by
  apply Quiet.bind quiet_getSpec
  intro spec
  apply Quiet.ite
  · apply Quiet.bind (quiet_undoSpec _)
    intro _
    apply Quiet.bind (quiet_modifySpec _)
    intro _
    exact Quiet.pure _
  · exact quiet_specStartGlobalInput hhost chr

theorem quiet_specCaretInput (chr : Gunichar) :
    Quiet (besides g) (specCaretInput host env chr) := by
  apply Quiet.ite
  · exact Quiet.throw _
  · exact quiet_specAppendDone hhost _

theorem quiet_specStringInput
    {inner : Bool -> Exec (SBScope W Reg) Bytes}
    (hinner : forall result, Quiet (besides g) (inner result))
    (chr : Gunichar) :
    Quiet (besides g) (specStringInput host env inner chr) := by
  apply Quiet.bind Quiet.get
  intro s
  have hfeed : Quiet (besides g) (do
      let text <- zoom innerLens.left (inner (!s.1.core.parseOnly))
      modifySpec (fun c => { c with name := c.name ++ text })
      pure SpecState.string) := by
    apply Quiet.bind (quiet_left (hinner _))
    intro text
    apply Quiet.bind (quiet_modifySpec _)
    intro _
    exact Quiet.pure _
  have hfeed' : Quiet (besides g) (do
      undoSpec env
        (fun c => { c with name := c.name.take s.1.core.name.length })
      let text <- zoom innerLens.left (inner (!s.1.core.parseOnly))
      modifySpec (fun c => { c with name := c.name ++ text })
      pure SpecState.string) := by
    apply Quiet.bind (quiet_undoSpec _)
    intro _
    exact hfeed
  have hboth := Quiet.ite (c := s.1.core.parseOnly = true) hfeed hfeed'
  dsimp only
  apply Quiet.ite
  · apply Quiet.bind (quiet_undoSpec _)
    intro _
    apply Quiet.bind (quiet_modifySpec _)
    intro _
    exact hboth
  · apply Quiet.ite
    · apply Quiet.bind (quiet_undoSpec _)
      intro _
      apply Quiet.bind (quiet_modifySpec _)
      intro _
      apply Quiet.ite
      · exact quiet_specDone hhost
      · exact hboth
    · exact hboth

theorem quiet_specStateInput
    {inner : Bool -> Exec (SBScope W Reg) Bytes}
    (hinner : forall result, Quiet (besides g) (inner result))
    (chr : Gunichar) :
    Quiet (besides g) (specStateInput host env inner chr) := by
  apply Quiet.bind quiet_getSpec
  intro spec
  split
  · exact quiet_specStartInput hhost chr
  · exact quiet_specStartGlobalInput hhost chr
  · exact quiet_specCaretInput hhost chr
  · apply Quiet.bind (quiet_specAppend _)
    intro _
    exact Quiet.pure _
  · exact quiet_specAppendDone hhost _
  · exact quiet_specStringInput hhost hinner chr

theorem quiet_specInput (wanted : Bool)
    {inner : Bool -> Exec (SBScope W Reg) Bytes}
    (hinner : forall result, Quiet (besides g) (inner result))
    (chr : Gunichar) :
    Quiet (besides g) (specInput host env wanted inner chr) := by
  have hrest : Quiet (besides g) (do
      let spec <- getSpec
      if spec.current = SpecState.start then
        pure (some (if wanted then spec.result else none,
          spec.resultTable))
      else
        pure none :
      Exec (SpecScope W Reg) (Option (Option Reg × Table))) := by
    apply Quiet.bind quiet_getSpec
    intro spec
    exact Quiet.ite (Quiet.pure _) (Quiet.pure _)
  apply Quiet.bind (quiet_modifySpec _)
  intro _
  apply Quiet.bind (quiet_specStateInput hhost hinner chr)
  intro next
  apply Quiet.bind quiet_getSpec
  intro spec
  apply Quiet.ite
  · apply Quiet.bind (quiet_undoSpec _)
    intro _
    apply Quiet.bind (quiet_modifySpec _)
    intro _
    exact hrest
  · exact hrest

/-!
## String building
-/

omit hhost in
theorem quiet_escapedInput (result : Bool) (chr : Gunichar) :
    Quiet (besides g) (escapedInput host result chr) := by
  apply Quiet.bind quiet_getCore
  intro core
  exact Quiet.ite (Quiet.pure _) (Quiet.pure _)

omit hhost in
theorem quiet_ctlInput (result : Bool) (chr : Gunichar) :
    Quiet (besides g) (ctlInput env result chr :
      Exec (SBScope W Reg) (SBState × Bytes)) := by
  apply Quiet.bind quiet_getCore
  intro core
  split
  · exact Quiet.pure _
  · apply Quiet.bind (quiet_undoCore _)
    intro _
    apply Quiet.bind (quiet_modifyCore _)
    intro _
    exact Quiet.pure _
  · exact Quiet.pure _
  · exact Quiet.pure _
  · exact Quiet.pure _
  · exact Quiet.pure _
  · exact Quiet.pure _
  · exact Quiet.ite (Quiet.pure _) (Quiet.pure _)

omit hhost in
theorem quiet_sbStartInput (result : Bool) (chr : Gunichar) :
    Quiet (besides g) (sbStartInput host env result chr) := by
  apply Quiet.bind quiet_getCore
  intro core
  apply Quiet.ite (quiet_escapedInput _ _)
  apply Quiet.ite (Quiet.pure _)
  apply Quiet.ite (quiet_escapedInput _ _)
  exact Quiet.ite (quiet_ctlInput _ _) (quiet_escapedInput _ _)

omit hhost in
theorem quiet_caseCtlInput (key : Char) (mode : SBMode) (result : Bool)
    (chr : Gunichar) :
    Quiet (besides g) (caseCtlInput env key mode result chr :
      Exec (SBScope W Reg) (SBState × Bytes)) := by
  apply Quiet.bind quiet_getCore
  intro core
  apply Quiet.ite
  · apply Quiet.ite
    · apply Quiet.bind (quiet_undoCore _)
      intro _
      apply Quiet.bind (quiet_modifyCore _)
      intro _
      exact Quiet.pure _
    · exact Quiet.pure _
  · exact Quiet.pure _

omit hhost in
theorem quiet_caseInput (ctlState : SBState)
    {ctl : Bool -> Gunichar -> Exec (SBScope W Reg) (SBState × Bytes)}
    (hctl : forall result chr, Quiet (besides g) (ctl result chr))
    (fold : Gunichar -> Gunichar) (result : Bool) (chr : Gunichar) :
    Quiet (besides g) (caseInput ctlState ctl fold result chr) := by
  apply Quiet.bind quiet_getCore
  intro core
  apply Quiet.ite (Quiet.pure _)
  exact Quiet.ite (hctl _ _) (Quiet.pure _)

omit hhost in
theorem quiet_prepareSpec : Quiet (besides g) (prepareSpec host env) := by
  apply Quiet.bind Quiet.get
  intro s
  split
  · apply quiet_left
    exact quiet_resetQRegSpecWith (quiet_resetStringBuilding _)
  · exact Quiet.modify (fun _ => rfl)

omit hhost in
theorem quiet_ctleInput (result : Bool) (chr : Gunichar) :
    Quiet (besides g) (ctleInput host env result chr) := by
  apply Quiet.bind quiet_getCore
  intro core
  split
  · exact Quiet.pure _
  · apply Quiet.bind quiet_prepareSpec
    intro _
    exact Quiet.pure _

omit hhost in
theorem quiet_ctleQRegInput (next : SBState)
    {expand : Reg -> Table -> Exec (SBScope W Reg) Bytes}
    {specMachine : Exec (SBScope W Reg) (Option (Option Reg × Table))}
    (hexpand : forall reg table, Quiet (besides g) (expand reg table))
    (hspec : Quiet (besides g) specMachine) (result : Bool) :
    Quiet (besides g) (ctleQRegInput next expand specMachine result) := by
  apply Quiet.bind hspec
  intro status
  split
  · exact Quiet.pure _
  · apply Quiet.ite
    · split
      · exact Quiet.fault _
      · apply Quiet.bind (hexpand _ _)
        intro text
        exact Quiet.pure _
    · exact Quiet.pure _

theorem quiet_expandNum (reg : Reg) (table : Table) :
    Quiet (besides g) (expandNum host env reg table) := by
  apply Quiet.bind (quiet_onEditor (hhost.getInteger reg))
  intro value
  apply Quiet.bind Quiet.get
  intro s
  split
  · exact Quiet.fault _
  · exact Quiet.pure _

theorem quiet_expandU (reg : Reg) (table : Table) :
    Quiet (besides g) (expandU host reg table) := by
  apply Quiet.bind (quiet_onEditor (hhost.getInteger reg))
  intro value
  apply Quiet.bind quiet_getCore
  intro core
  split
  · exact Quiet.pure _
  · exact Quiet.throw _

theorem quiet_expandQ (reg : Reg) (table : Table) :
    Quiet (besides g) (expandQ host reg table) := by
  apply Quiet.bind (quiet_onEditor (hhost.getString reg))
  intro str
  apply Quiet.bind quiet_getCore
  intro core
  split
  · exact Quiet.fault _
  · exact Quiet.pure _

theorem quiet_expandQuoted (quote : Bytes -> Bytes) (reg : Reg)
    (table : Table) :
    Quiet (besides g) (expandQuoted host quote reg table) := by
  apply Quiet.bind (quiet_onEditor (hhost.getString reg))
  intro str
  apply Quiet.ite (Quiet.throw _)
  apply Quiet.bind quiet_getCore
  intro core
  exact Quiet.pure _

omit hhost in
theorem quiet_ctleCodeInput (result : Bool) (chr : Gunichar) :
    Quiet (besides g) (ctleCodeInput host env result chr) := by
  apply Quiet.bind quiet_getCore
  intro core
  apply Quiet.ite
  · apply Quiet.ite
    · apply Quiet.ite (Quiet.throw _)
      split
      · exact Quiet.throw _
      · apply Quiet.bind (quiet_undoCore _)
        intro _
        apply Quiet.bind (quiet_modifyCore _)
        intro _
        exact Quiet.pure _
    · exact Quiet.pure _
  · apply Quiet.ite
    · apply Quiet.bind (quiet_undoCore _)
      intro _
      apply Quiet.bind (quiet_modifyCore _)
      intro _
      exact Quiet.pure _
    · exact Quiet.pure _

theorem quiet_sbStateInput
    {specMachine : Exec (SBScope W Reg) (Option (Option Reg × Table))}
    (hspec : Quiet (besides g) specMachine) (result : Bool)
    (chr : Gunichar) :
    Quiet (besides g) (sbStateInput host env specMachine result chr) := by
  apply Quiet.bind quiet_getCore
  intro core
  split
  · exact quiet_sbStartInput _ _
  · exact quiet_ctlInput _ _
  · exact quiet_escapedInput _ _
  · exact quiet_caseInput _ (quiet_caseCtlInput _ _) _ _ _
  · exact quiet_caseCtlInput _ _ _ _
  · exact quiet_caseInput _ (quiet_caseCtlInput _ _) _ _ _
  · exact quiet_caseCtlInput _ _ _ _
  · exact quiet_ctleInput _ _
  · exact quiet_ctleQRegInput _ (quiet_expandNum hhost) hspec _
  · exact quiet_ctleQRegInput _ (quiet_expandU hhost) hspec _
  · exact quiet_ctleCodeInput _ _
  · exact quiet_ctleQRegInput _ (quiet_expandQ hhost) hspec _
  · exact quiet_ctleQRegInput _ (quiet_expandQuoted hhost _) hspec _
  · exact quiet_ctleQRegInput _ (quiet_expandQuoted hhost _) hspec _

theorem quiet_sbInputWith
    {specMachine : Exec (SBScope W Reg) (Option (Option Reg × Table))}
    (hspec : Quiet (besides g) specMachine) (result : Bool)
    (chr : Gunichar) :
    Quiet (besides g) (sbInputWith host env specMachine result chr) := by
  apply Quiet.bind (quiet_sbStateInput hhost hspec _ _)
  intro step
  apply Quiet.bind quiet_getCore
  intro core
  apply Quiet.ite
  · apply Quiet.bind (quiet_undoCore _)
    intro _
    apply Quiet.bind (quiet_modifyCore _)
    intro _
    exact Quiet.pure _
  · exact Quiet.pure _

theorem quiet_sbInputOf (chr : Gunichar) (sb : StringBuilding Reg)
    (result : Bool) :
    Quiet (besides g) (sbInputOf host env chr sb result) := by
  induction sb generalizing result with
  | plain core => exact quiet_sbInputWith hhost (Quiet.fault _) _ _
  | withSpec core spec inner ih =>
      apply quiet_sbInputWith hhost
      apply quiet_left
      exact quiet_specInput hhost _ ih _

theorem quiet_sbInput (result : Bool) (chr : Gunichar) :
    Quiet (besides g) (sbInput host env result chr) :=
  fun s => (quiet_sbInputOf hhost chr s.1 result s).congr rfl

theorem quiet_qregSpecInput (wanted : Bool) (chr : Gunichar) :
    Quiet (besides g) (qregSpecInput host env wanted chr) :=
  fun s => (quiet_specInput hhost wanted
    (quiet_sbInputOf hhost chr s.1.stringbuilding) chr s).congr rfl

end Machines

end Parser
end SciTECO
