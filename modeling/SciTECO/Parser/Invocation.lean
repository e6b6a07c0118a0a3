import SciTECO.Lib.Frame
import SciTECO.Parser.Discipline
import SciTECO.Parser.SampleHost

/-!
# Macro invocations

A macro leaves the loop stack of its caller as it was, however it ends, and its
commands may run macros in turn.
-/

namespace SciTECO
namespace Parser

open Undoable
open QReg (Table)

variable {W Reg : Type} [DecidableEq Reg] {strict : Prop}

/-!
## The run of a macro
-/

section Runs

variable (host : Host W Reg) (env : Env) (text : Bytes)

/-- `teco_execute_macro()` continues behind a `:O` command. -/
def continueAt (pc : Nat) : Exec (State W Reg) Unit := do
  modify (State.mapMachine (fun m =>
    { m with macroPc := pc, current := MainState.start }))
  clearGotoSkipLabel
  setMode env Mode.normal
  modify (State.mapMachine (fun m => { m with gotoComplete := true }))

/-- Execute the macro up to its end, or until it returns. -/
def runToEnd (level fuel : Nat) : Exec (State W Reg) Unit :=
  handle (mainStep host env text text.length fuel) (fun e =>
    if e.code = ErrorCode.returned then macroReturn level
    else throw e)

/-- The states in which a character of the macro is executed. -/
inductive Visits (level : Nat) : State W Reg -> State W Reg -> Prop where
  | here (s : State W Reg) : Visits level s s
  | step {s t u : State W Reg} (tokens : List (State W Reg -> State W Reg))
      (hpc : s.machine.macroPc < text.length)
      (hrun : stepCharacter host env text s = .ok () t tokens)
      (hvisits : Visits level t u) : Visits level s u
  | again {s t u v : State W Reg} {pc : Nat} (fuel : Nat)
      (tokens tokens' : List (State W Reg -> State W Reg))
      (hrun : runToEnd host env text level fuel s = .ok () t tokens)
      (hpc : t.gotoBackupPc = some pc)
      (hcontinue : continueAt env pc t = .ok () u tokens')
      (hvisits : Visits level u v) : Visits level s v

/-- The conditions on a character of a macro: a `;` does not fail while it
leaves the loop, and the macro does not return from within a loop. -/
structure StepMeets (s : State W Reg) : Prop where
  breaks : StepBreaksWell host env text s
  returns : forall e t tokens,
    stepCharacter host env text s = .error e t tokens ->
    e.code = ErrorCode.returned -> t.ownLoops = []

end Runs

variable {host : Host W Reg} {env : Env} {text : Bytes} {level : Nat}

/-!
## One pass
-/

theorem mainStep_disciplined (level : Nat) (hhost : host.Nests strict env)
    (fuel : Nat) (s : State W Reg)
    (hmeets : strict -> forall t, Visits host env text level s t ->
      StepBreaksWell host env text t) :
    Leads (Disciplined strict env)
      (mainStep host env text text.length fuel) s := by
  induction fuel generalizing s with
  | zero => trivial
  | succ fuel ih =>
      apply Leads.read disciplined_composes
      apply Leads.ite
      · intro hpc
        apply Leads.bind disciplined_composes
        · apply stepCharacter_disciplined hhost
          intro hstrict
          exact hmeets hstrict s (Visits.here s)
        · intro _ t tokens hrun
          apply ih
          intro hstrict u hvisits
          exact hmeets hstrict u (Visits.step tokens hpc hrun hvisits)
      · intro _
        exact orderly_stateRefresh hhost _ s

omit [DecidableEq Reg] in
theorem throws_stateRefresh (state : MainState) :
    Throws (fun e => e.code ≠ ErrorCode.returned)
      (stateRefresh host env state) := by
  have hprocess : forall cmd, Throws
      (fun e => e.code ≠ ErrorCode.returned)
      (stringProcess host env cmd) := by
    intro cmd
    apply Throws.bind Throws.get
    intro s
    apply Throws.ite (Throws.pure ())
    apply Throws.ite
    · apply Throws.ite (Throws.fault _)
      apply Throws.ite
      · apply Throws.throw
        decide
      · exact Throws.pure ()
    · apply Throws.ite
      · exact Throws.zoom (host.stringProcess_code _ _ _ _ _)
      · exact Throws.pure ()
  unfold stateRefresh
  split
  · apply Throws.bind Throws.get
    intro s
    apply Throws.bind (hprocess _)
    intro _
    unfold undo
    apply Throws.bind
    · exact Throws.ite (Throws.emit _) (Throws.pure ())
    · intro _
      exact Throws.modify _
  · exact Throws.pure ()

/-- A macro returns by one of its characters. -/
theorem mainStep_returned (level : Nat) {fuel : Nat} {s t : State W Reg}
    {e : TecoError}
    {tokens : List (State W Reg -> State W Reg)}
    (hrun : mainStep host env text text.length fuel s = .error e t tokens)
    (hcode : e.code = ErrorCode.returned) :
    exists u tokens', Visits host env text level s u ∧
      stepCharacter host env text u = .error e t tokens' := by
  induction fuel generalizing s tokens with
  | zero => cases hrun
  | succ fuel ih =>
      have hrest : (if s.machine.macroPc < text.length then do
          stepCharacter host env text
          mainStep host env text text.length fuel
        else
          stateRefresh host env s.machine.current :
          Exec (State W Reg) Unit) s = .error e t tokens := by
        rcases bind_error hrun with hget | ⟨a, u, earlier, later, hget, h, heq⟩
        · cases hget
        · cases hget
          rw [heq, List.append_nil]
          exact h
      by_cases hpc : s.machine.macroPc < text.length
      · rw [if_pos hpc] at hrest
        rcases bind_error hrest with
          hstep | ⟨_, u, earlier, later, hstep, hnext, _⟩
        · exact ⟨s, tokens, Visits.here s, hstep⟩
        · rcases ih hnext with ⟨v, tokens', hvisits, hv⟩
          exact ⟨v, tokens', Visits.step earlier hpc hstep hvisits, hv⟩
      · rw [if_neg hpc] at hrest
        have hthrows : Throws (fun e => e.code ≠ ErrorCode.returned)
            (stateRefresh host env s.machine.current) :=
          throws_stateRefresh _
        have hthrows := hthrows s
        unfold wp at hthrows
        rw [hrest] at hthrows
        exact absurd hcode hthrows

omit [DecidableEq Reg] in
/-- The loops of the invocation are forgotten without a token. -/
theorem macroReturn_disciplined (s : State W Reg)
    (hown : strict -> s.ownLoops = []) :
    Leads (Disciplined strict env) (macroReturn level) s := by
  apply Leads.read disciplined_composes
  apply Leads.ite
  · intro _
    trivial
  · intro _
    apply Leads.bind disciplined_composes
      (Disciplined.quiet (quiet_onExpr _) s)
    intro _ t _ ht
    rcases loops_of_quiet (quiet_onExpr _) ht with ⟨hloops, hfp⟩
    intro hinside
    have hcount : t.machine.loopStackFp <=
        (t.loops.drop (t.loops.length - t.machine.loopStackFp)).length := by
      rw [List.length_drop]
      omega
    constructor
    · exact SameCallers.of_suffix _ [] (List.take_append_drop _ t.loops).symm
        rfl rfl hcount
    · intro hstrict
      have hzero : t.loops.length - t.machine.loopStackFp = 0 := by
        have hnil := hown hstrict
        unfold State.ownLoops at hnil
        rw [hloops, hfp]
        rcases List.take_eq_nil_iff.mp hnil with hlen | hempty
        · exact hlen
        · show s.editor.loopStack.length - _ = 0
          rw [hempty]
          exact Nat.zero_sub _
      apply Reverted.of_untouched
      constructor
      · show t.loops.drop (t.loops.length - t.machine.loopStackFp) = t.loops
        rw [hzero, List.drop_zero]
      · intro token hmem
        cases hmem

/-!
## The whole macro
-/

theorem runToEnd_disciplined (hhost : host.Nests strict env) (fuel : Nat)
    (s : State W Reg)
    (hmeets : strict -> forall t, Visits host env text level s t ->
      StepMeets host env text t) :
    Leads (Disciplined strict env) (runToEnd host env text level fuel) s := by
  apply Leads.handle disciplined_composes
  · apply mainStep_disciplined level hhost
    intro hstrict t hvisits
    exact (hmeets hstrict t hvisits).breaks
  · intro e t tokens hrun
    apply Leads.ite
    · intro hcode
      apply macroReturn_disciplined
      intro hstrict
      rcases mainStep_returned level hrun hcode with
        ⟨u, tokens', hvisits, hstep⟩
      exact (hmeets hstrict u hvisits).returns e t tokens' hstep hcode
    · intro _
      exact Leads.throw disciplined_composes e

omit [DecidableEq Reg] in
theorem quiet_continueAt (pc : Nat) :
    Quiet State.frame (continueAt env pc : Exec (State W Reg) Unit) := by
  apply Quiet.bind
  · exact Quiet.modify (fun _ => rfl)
  intro _
  apply Quiet.bind quiet_clearGotoSkipLabel
  intro _
  apply Quiet.bind (quiet_setMode _)
  intro _
  exact Quiet.modify (fun _ => rfl)

theorem macroLoop_succ (fuel : Nat) :
    macroLoop host env text level (fuel + 1) = (do
      runToEnd host env text level fuel
      let s <- get
      match s.gotoBackupPc with
      | none => pure ()
      | some pc => do
          continueAt env pc
          macroLoop host env text level fuel) := by
  unfold continueAt
  simp only [bind_assoc]
  rfl

theorem macroLoop_disciplined (hhost : host.Nests strict env) (fuel : Nat)
    (s : State W Reg)
    (hmeets : strict -> forall t, Visits host env text level s t ->
      StepMeets host env text t) :
    Leads (Disciplined strict env) (macroLoop host env text level fuel)
      s := by
  induction fuel generalizing s with
  | zero => trivial
  | succ fuel ih =>
      rw [macroLoop_succ]
      apply Leads.bind disciplined_composes
      · exact runToEnd_disciplined hhost fuel s hmeets
      · intro _ t tokens hrun
        apply Leads.read disciplined_composes
        split
        · exact Leads.pure disciplined_composes ()
        case h_2 pc hpc =>
          apply Leads.bind disciplined_composes
          · exact Disciplined.quiet (quiet_continueAt pc) t
          · intro _ u tokens' hcontinue
            apply ih
            intro hstrict v hvisits
            exact hmeets hstrict v
              (Visits.again fuel tokens tokens' hrun hpc hcontinue hvisits)

/-- The machine of an invocation. -/
def invoked (host : Host W Reg) (s : State W Reg) : State W Reg :=
  { s with
    machine := Machine.init s.editor.loopStack.length
      (host.defaultCodepage s.editor) }

/-- Every character of the macro meets the conditions. -/
def RunMeets (host : Host W Reg) (env : Env) (text : Bytes)
    (s : State W Reg) : Prop :=
  forall t, Visits host env text s.editor.expr.braceLevel (invoked host s) t ->
    StepMeets host env text t

/-- The part of `teco_execute_macro()` with the machine of the invocation. -/
def invocation (host : Host W Reg) (env : Env) (text : Bytes)
    (level fuel : Nat) : Exec (State W Reg) Unit := do
  macroLoop host env text level fuel
  endOfMacro env

omit [DecidableEq Reg] in
theorem quiet_endOfMacro :
    Quiet State.frame (endOfMacro env : Exec (State W Reg) Unit) := by
  apply Quiet.bind Quiet.get
  intro s
  apply Quiet.ite (Quiet.throw _)
  exact Quiet.ite (Quiet.throw _) (quiet_stateEndOfMacro _)

/-- The loops of a finished macro have all been closed. -/
theorem invocation_ok {fuel : Nat} {s t : State W Reg}
    {tokens : List (State W Reg -> State W Reg)}
    (hrun : invocation host env text level fuel s = .ok () t tokens) :
    t.loops.length <= t.machine.loopStackFp := by
  rcases bind_ok hrun with ⟨_, u, earlier, later, _, hend, _⟩
  have hframe := loops_of_quiet quiet_endOfMacro hend
  rw [hframe.1, hframe.2]
  have h : wp (endOfMacro env)
      (fun _ _ => u.loops.length <= u.machine.loopStackFp)
      (fun _ _ => True) (fun _ => True) u := by
    unfold endOfMacro
    rw [wp_bind, wp_get]
    split
    · trivial
    · split
      · trivial
      case isFalse hlen =>
        exact wp_of_forall (fun _ _ => Nat.le_of_not_lt hlen)
          (fun _ _ => trivial) (fun _ => trivial)
  have hresult := wp_ok h hend
  exact hresult

omit [DecidableEq Reg] in
/-- Relative to its callers, an invocation only adds loops. -/
theorem Disciplined.balanced {s t : State W Reg}
    {tokens : List (State W Reg -> State W Reg)}
    (h : Disciplined strict env s t tokens)
    (hfp : s.machine.loopStackFp = s.loops.length)
    (hundo : strict -> env.mustUndo = false) :
    Balanced State.loops strict s t tokens := by
  rcases h (Nat.le_of_eq hfp) with ⟨hsame, hback⟩
  have hcallers : s.callers = s.loops := by
    unfold State.callers
    rw [hfp, Nat.sub_self, List.drop_zero]
  constructor
  · rw [<- hcallers, <- hsame.callers]
    exact List.drop_suffix _ _
  · intro hstrict
    have hback' := hback hstrict
    rw [hundo hstrict, hfp] at hback'
    simpa using hback'

theorem invocation_disciplined (hhost : host.Nests strict env) (fuel : Nat)
    (s : State W Reg) (hmeets : strict -> RunMeets host env text s) :
    Leads (Disciplined strict env)
      (invocation host env text s.editor.expr.braceLevel fuel)
      (invoked host s) := by
  apply Leads.bind disciplined_composes
  · exact macroLoop_disciplined hhost fuel _ hmeets
  · intro _ t _ _
    exact Disciplined.quiet quiet_endOfMacro t

theorem executeMacro_balanced (hhost : host.Nests strict env) (fuel : Nat)
    (s : State W Reg) (hundo : strict -> env.mustUndo = false)
    (hmeets : strict -> RunMeets host env text s) :
    Leads (Balanced State.loops strict) (executeMacro host env text fuel)
      s := by
  have hcomp : Composes (Balanced (@State.loops W Reg) strict) :=
    balanced_composes
  have hkeep : forall f : State W Reg -> State W Reg,
      (forall t, (f t).loops = t.loops) -> forall t,
      Leads (Balanced State.loops strict)
        (modify f : Exec (State W Reg) Unit) t := by
    intro f hf t
    apply (Quiet.modify hf t).mono
    intro u tokens hu
    exact Balanced.of_untouched hu
  apply Leads.ite
  · intro _
    exact Leads.throw hcomp _
  · intro _
    apply Leads.read hcomp
    apply Leads.bind hcomp
    · exact hkeep _ (fun _ => rfl) s
    intro _ t _ ht
    cases ht
    apply Leads.handle hcomp
    · apply Leads.ensuring hcomp
      · apply (invocation_disciplined hhost fuel s hmeets).mono
        intro t tokens h
        exact h.balanced rfl hundo
      · intro t _ _
        exact hkeep _ (fun _ => rfl) t
    · intro e t _ _
      apply Leads.bind hcomp
      · exact hkeep _ (fun _ => rfl) t
      intro _ u _ _
      exact Leads.throw hcomp e

/-- After a macro without an error there are the same loops as before, even if
it has returned from within its own loops. -/
theorem executeMacro_returns (hhost : host.Nests False env) {fuel : Nat}
    {s t : State W Reg} {tokens : List (State W Reg -> State W Reg)}
    (hrun : executeMacro host env text fuel s = .ok () t tokens) :
    t.loops = s.loops := by
  have hinner : wp
      (invocation host env text s.editor.expr.braceLevel fuel)
      (fun _ t => t.loops = s.loops) (fun _ _ => True) (fun _ => True)
      (invoked host s) := by
    have hleads : Leads (Disciplined False env)
        (invocation host env text s.editor.expr.braceLevel fuel)
        (invoked host s) :=
      invocation_disciplined hhost fuel s (fun h => h.elim)
    unfold wp
    cases hend : invocation host env text s.editor.expr.braceLevel fuel
        (invoked host s) with
    | error e u k => trivial
    | fault c => trivial
    | ok _ u k =>
        have hdisciplined := hleads.ok hend
        have hbalanced := hdisciplined.balanced rfl (fun h => h.elim)
        have hfp := (hdisciplined (Nat.le_refl _)).1.fp
        have hlen := invocation_ok hend
        rw [hfp] at hlen
        exact (hbalanced.1.eq_of_length_le hlen).symm
  have h : wp (executeMacro host env text fuel)
      (fun _ t => t.loops = s.loops) (fun _ _ => True) (fun _ => True) s := by
    unfold executeMacro
    rw [wp_ite]
    split
    · trivial
    · rw [wp_bind, wp_get, wp_bind, wp_modify, wp_handle, wp_ensuring]
      apply wp_mono hinner
      · intro _ u hu
        exact hu
      · intro e u _
        trivial
      · intro c hc
        exact hc
  have hresult := wp_ok h hrun
  exact hresult

/-!
## Nested invocations
-/

/-- The globals for a macro that is run by a command of the host.  The machine
of the caller takes no part in it. -/
def Command.toState (c : Command W) : State W Reg :=
  commandLens.set c
    { machine := Machine.init 0 codepageUtf8
      editor := c.editor
      gotoSkipLabel := []
      gotoBackupPc := none
      isExecuting := false
      returnArgs := 0 }

/-- `teco_execute_macro()` as a part of a command. -/
def runMacro (host : Host W Reg) (env : Env) (text : Bytes) (fuel : Nat) :
    Exec (Command W) Unit :=
  onLarger Command.toState commandLens.get (executeMacro host env text fuel)

omit [DecidableEq Reg] in
theorem Host.Nests.relax (hhost : host.Nests strict env) :
    host.Nests False env := by
  constructor
  · exact hhost.reads
  · intro α m hm c
    constructor
    · apply (hhost.command m hm c).leads.mono
      intro d tokens hd
      exact ⟨hd.1, fun h => h.elim⟩
    · exact (hhost.command m hm c).returns

theorem runMacro_nests (hhost : host.Nests strict env) (fuel : Nat)
    (c : Command W) (hundo : strict -> env.mustUndo = false)
    (hmeets : strict -> RunMeets host env text c.toState) :
    Nests strict (runMacro host env text fuel) c := by
  constructor
  · apply Leads.onLarger
      (executeMacro_balanced hhost fuel c.toState hundo hmeets)
    intro s tokens hs
    constructor
    · exact hs.1
    · intro hstrict
      rcases hs.2 hstrict with ⟨ks, hlogs, hback⟩
      exists ks
      constructor
      · clear hs hback
        induction hlogs with
        | nil => exact List.Forall₂.nil
        | cons htoken _ ih =>
            exact List.Forall₂.cons (fun d => htoken d.toState) ih
      · exact hback
  · intro _ d tokens hrun
    unfold runMacro onLarger at hrun
    cases hexec : executeMacro host env text fuel c.toState with
    | ok _ t k =>
        rw [hexec] at hrun
        cases hrun
        exact executeMacro_returns hhost.relax hexec
    | error e t k =>
        rw [hexec] at hrun
        cases hrun
    | fault x =>
        rw [hexec] at hrun
        cases hrun

/-- The commands of a host: they leave the loop stack alone or run macros.  In
the strict sense all these macros meet the conditions.  A command may also be
described by another one that does the same, and a crash is no concern. -/
inductive Made (strict : Prop) (Reg : Type) [DecidableEq Reg] :
    {α : Type} -> Exec (Command W) α -> Command W -> Prop where
  | quiet {α : Type} {m : Exec (Command W) α} (c : Command W)
      (h : Quiet Command.loops m) : Made strict Reg m c
  | bind {α β : Type} {m : Exec (Command W) α}
      {f : α -> Exec (Command W) β} {c : Command W}
      (hm : Made strict Reg m c)
      (hf : forall a d tokens, m c = .ok a d tokens ->
        Made strict Reg (f a) d) : Made strict Reg (m >>= f) c
  | macroCall (host : Host W Reg) (env : Env) (text : Bytes) (fuel : Nat)
      (c : Command W) (hreads : host.ReadsOnly Editor.loops)
      (hmade : forall {α : Type} (m : Exec (Command W) α),
        host.Provides env m -> forall d, Made strict Reg m d)
      (hundo : env.mustUndo = false)
      (hmeets : strict -> RunMeets host env text c.toState) :
      Made strict Reg (runMacro host env text fuel) c
  | same {α : Type} {m n : Exec (Command W) α} {c : Command W}
      (hm : Made strict Reg m c) (heq : n c = m c) : Made strict Reg n c
  | crash {α : Type} {m : Exec (Command W) α} {c : Command W} (x : Fault)
      (heq : m c = .fault x) : Made strict Reg m c

theorem Made.nests {α : Type} {m : Exec (Command W) α} {c : Command W}
    (h : Made strict Reg m c) : Nests strict m c := by
  induction h with
  | quiet c h => exact Nests.quiet h c
  | bind _ _ ihm ihf => exact Nests.bind ihm ihf
  | macroCall host env text fuel c hreads _ hundo hmeets ih =>
      exact runMacro_nests ⟨hreads, ih⟩ fuel c (fun _ => hundo) hmeets
  | same _ heq ih =>
      constructor
      · exact ih.leads.congr heq
      · intro a d tokens hrun
        rw [heq] at hrun
        exact ih.returns a d tokens hrun
  | crash x heq =>
      constructor
      · unfold Leads
        rw [heq]
        trivial
      · intro a d tokens hrun
        rw [heq] at hrun
        cases hrun

/-- All commands of a host, and what it reads. -/
structure Host.Made (strict : Prop) (host : Host W Reg) (env : Env) :
    Prop where
  reads : host.ReadsOnly Editor.loops
  command : forall {α : Type} (m : Exec (Command W) α),
    host.Provides env m -> forall c, Parser.Made strict Reg m c

theorem Host.Made.nests (h : host.Made strict env) :
    host.Nests strict env :=
  ⟨h.reads, fun m hm c => (h.command m hm c).nests⟩

theorem sampleHost_made (env : Env) : sampleHost.Made strict env := by
  have hchange : forall f : SampleWorld -> SampleWorld,
      Quiet Command.loops (sampleChange f) := by
    intro f
    apply Quiet.bind Quiet.get
    intro c
    apply Quiet.bind
    · exact Quiet.emit (fun _ => rfl)
    intro _
    exact Quiet.modify (fun _ => rfl)
  constructor
  · constructor
    · intro table name
      exact Quiet.pure _
    · intro reg
      exact Quiet.pure _
    · intro reg
      apply Quiet.bind Quiet.get
      intro e
      cases reg with
      | search => exact Quiet.pure _
      | replacement => exact Quiet.pure _
      | named name => exact Quiet.pure _
  · intro α m hm c
    apply Made.quiet
    cases hm with
    | run cmd =>
        show Quiet Command.loops (sampleRun cmd env)
        unfold sampleRun
        split
        · exact hchange _
        · exact Quiet.pure ()
    | gotRegister => exact Quiet.pure ()
    | stringCodepage => exact Quiet.pure _
    | stringInitial => exact Quiet.pure ()
    | stringProcess cmd codepage str newChars =>
        show Quiet Command.loops (sampleProcess cmd str newChars)
        unfold sampleProcess
        split
        · exact hchange _
        · exact Quiet.pure ()
    | stringDone => exact Quiet.pure ()

end Parser
end SciTECO
