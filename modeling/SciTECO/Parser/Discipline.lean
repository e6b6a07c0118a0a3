import SciTECO.Parser.LoopStack

/-!
# The discipline of a step

No character that a machine executes touches the loops of the callers, and its
tokens take back what it has done to the loops of the invocation.
-/

namespace SciTECO
namespace Parser

open Undoable
open QReg (Table)

variable {W Reg : Type} {strict : Prop}

/-!
## Commands of the host
-/

def Command.loops (c : Command W) : List LoopContext := c.editor.loopStack

/-- A command that leaves nothing on the loop stack unless it fails. -/
structure Nests (strict : Prop) {α : Type} (m : Exec (Command W) α)
    (c : Command W) : Prop where
  leads : Leads (Balanced Command.loops strict) m c
  returns : forall a d tokens, m c = .ok a d tokens -> d.loops = c.loops

theorem Nests.quiet {α : Type} {m : Exec (Command W) α}
    (h : Quiet Command.loops m) (c : Command W) : Nests strict m c := by
  constructor
  · exact (h c).mono (fun _ _ hd => Balanced.of_untouched hd)
  · intro a d tokens hrun
    exact ((h c).ok hrun).state

theorem Nests.bind {α β : Type} {m : Exec (Command W) α}
    {f : α -> Exec (Command W) β} {c : Command W} (hm : Nests strict m c)
    (hf : forall a d tokens, m c = .ok a d tokens -> Nests strict (f a) d) :
    Nests strict (m >>= f) c := by
  constructor
  · exact Leads.bind balanced_composes hm.leads
      (fun a d tokens hrun => (hf a d tokens hrun).leads)
  · intro b e tokens hrun
    rcases bind_ok hrun with ⟨a, d, earlier, later, hfirst, hnext, _⟩
    exact ((hf a d earlier hfirst).returns _ _ _ hnext).trans
      (hm.returns _ _ _ hfirst)

/-- The commands of a host. -/
inductive Host.Provides (host : Host W Reg) (env : Env) :
    {α : Type} -> Exec (Command W) α -> Prop where
  | run (cmd : EditorCommand) : Provides host env (host.run cmd env)
  | gotRegister (cmd : QRegCommand) (reg : Option Reg) (table : Table)
      (modifierAt : Bool) :
      Provides host env (host.gotRegister cmd env reg table modifierAt)
  | stringCodepage (cmd : StringCommand) (reg : Option Reg) :
      Provides host env (host.stringCodepage cmd env reg)
  | stringInitial (cmd : StringCommand) :
      Provides host env (host.stringInitial cmd env)
  | stringProcess (cmd : StringCommand) (codepage : Nat) (str : Bytes)
      (newChars : Nat) :
      Provides host env (host.stringProcess cmd env codepage str newChars)
  | stringDone (cmd : StringCommand) (qreg : Option (Reg × Table))
      (str : Bytes) :
      Provides host env (host.stringDone cmd env qreg str)

/-- What a step relies on. -/
structure Host.Nests (strict : Prop) (host : Host W Reg) (env : Env) :
    Prop where
  reads : host.ReadsOnly Editor.loops
  command : forall {α : Type} (m : Exec (Command W) α),
    host.Provides env m -> forall c, Parser.Nests strict m c

/-!
## Parts of a step
-/

variable {host : Host W Reg} {env : Env}

/-- A computation that keeps the discipline from every state. -/
def Orderly (strict : Prop) (env : Env) {α : Type}
    (m : Exec (State W Reg) α) : Prop :=
  forall s, Leads (Disciplined strict env) m s

namespace Orderly

theorem quiet {α : Type} {m : Exec (State W Reg) α}
    (h : Quiet State.frame m) : Orderly strict env m :=
  Disciplined.quiet h

theorem bind {α β : Type} {m : Exec (State W Reg) α}
    {f : α -> Exec (State W Reg) β} (hm : Orderly strict env m)
    (hf : forall a, Orderly strict env (f a)) :
    Orderly strict env (m >>= f) :=
  fun s => Leads.bind disciplined_composes (hm s) (fun a t _ _ => hf a t)

theorem ite {c : Prop} [Decidable c] {α : Type}
    {m n : Exec (State W Reg) α} (hm : Orderly strict env m)
    (hn : Orderly strict env n) :
    Orderly strict env (if c then m else n) :=
  fun s => Leads.ite (fun _ => hm s) (fun _ => hn s)

theorem pure {α : Type} (a : α) :
    Orderly strict env (Pure.pure a : Exec (State W Reg) α) :=
  quiet (Quiet.pure a)

theorem get : Orderly strict env
    (Undoable.get : Exec (State W Reg) (State W Reg)) :=
  quiet Quiet.get

theorem throw {α : Type} (e : TecoError) :
    Orderly strict env (Undoable.throw e : Exec (State W Reg) α) :=
  quiet (Quiet.throw e)

theorem fault {α : Type} (c : Fault) :
    Orderly strict env (Undoable.fault c : Exec (State W Reg) α) :=
  quiet (Quiet.fault c)

theorem ensuring {α : Type} {m : Exec (State W Reg) α}
    {after : Exec (State W Reg) Unit} (hm : Orderly strict env m)
    (hafter : Orderly strict env after) :
    Orderly strict env (Undoable.ensuring m after) :=
  fun s => Leads.ensuring disciplined_composes (hm s)
    (fun t _ _ => hafter t)

/-- A command of the host works above the loops of the invocation. -/
theorem onHost {α : Type} {m : Exec (Command W) α}
    (h : forall c, Parser.Nests strict m c) :
    Orderly strict env (Parser.onHost m : Exec (State W Reg) α) := by
  intro s
  apply Leads.zoom (h (commandLens.get s)).leads
  intro d tokens hd hinside
  rcases hd.1 with ⟨added, hadded⟩
  constructor
  · exact SameCallers.of_suffix [] added (List.nil_append s.loops).symm
      hadded.symm rfl hinside
  · intro hstrict
    rcases hd.2 hstrict with ⟨ks, hlogs, hback⟩
    apply Reverted.of_nested
    · exists ks
      constructor
      · exact hlogs.onPart (fun _ _ => rfl) (fun _ => rfl)
      · exact hback
    · exact hd.1
    · exact hinside

end Orderly

/-!
## Arguments
-/

section Arguments

variable (hhost : host.Nests strict env)
include hhost

theorem orderly_hostStringInitial (cmd : StringCommand) :
    Orderly strict env (hostStringInitial host env cmd) := by
  have hend : Orderly strict env
      (onHost (host.stringInitial cmd env) : Exec (State W Reg) Unit) :=
    Orderly.onHost (hhost.command _ (.stringInitial cmd))
  apply Orderly.bind (Orderly.quiet quiet_getMode)
  intro mode
  apply Orderly.ite (Orderly.pure ())
  apply Orderly.bind Orderly.get
  intro s
  apply Orderly.bind
  · exact Orderly.onHost (hhost.command _ (.stringCodepage cmd _))
  intro codepage
  split
  · apply Orderly.bind (Orderly.quiet (quiet_setCodepage _))
    intro _
    exact hend
  · exact hend

theorem orderly_stringInitial (cmd : StringCommand) :
    Orderly strict env (stringInitial host env cmd) := by
  have hdefault : Orderly strict env (do
      let s <- get
      if s.mode = Mode.normal then
        setCodepage env (host.defaultCodepage s.editor)
      else
        pure () : Exec (State W Reg) Unit) := by
    apply Orderly.bind Orderly.get
    intro s
    exact Orderly.ite (Orderly.quiet (quiet_setCodepage _)) (Orderly.pure ())
  unfold stringInitial
  split
  · exact Orderly.quiet quiet_printStringInitial
  · exact Orderly.pure ()
  · exact Orderly.ite (orderly_hostStringInitial hhost _) hdefault

theorem orderly_stringProcess (cmd : StringCommand) :
    Orderly strict env (stringProcess host env cmd) := by
  apply Orderly.bind Orderly.get
  intro s
  apply Orderly.ite (Orderly.pure ())
  apply Orderly.ite (Orderly.quiet (quiet_expectfileProcess _ _))
  apply Orderly.ite
  · exact Orderly.onHost (hhost.command _ (.stringProcess cmd _ _ _))
  · exact Orderly.pure ()

theorem orderly_hostStringDone (cmd : StringCommand)
    (qreg : Option (Option Reg × Table)) (str : Bytes) :
    Orderly strict env (hostStringDone host env cmd qreg str) := by
  apply Orderly.bind (Orderly.quiet quiet_getMode)
  intro mode
  apply Orderly.ite (Orderly.pure ())
  exact Orderly.onHost (hhost.command _ (.stringDone cmd _ _))

/-- The host does its work, and another state follows. -/
theorem orderly_hostStringDone_next (cmd : StringCommand)
    (qreg : Option (Option Reg × Table)) (str : Bytes) (next : MainState) :
    Orderly strict env (do
      hostStringDone host env cmd qreg str
      pure next) := by
  apply Orderly.bind (orderly_hostStringDone hhost cmd qreg str)
  intro _
  exact Orderly.pure _

theorem orderly_replaceDone (cmd found notFound : StringCommand)
    (str : Bytes) :
    Orderly strict env (replaceDone host env cmd found notFound str) := by
  apply Orderly.bind (Orderly.quiet quiet_getMode)
  intro mode
  apply Orderly.ite (Orderly.pure _)
  apply Orderly.bind (orderly_hostStringDone hhost cmd none str)
  intro _
  apply Orderly.bind (Orderly.quiet (quiet_searchSucceeded hhost.reads))
  intro success
  exact Orderly.pure _

theorem orderly_replaceDefaultAllDone (str : Bytes) :
    Orderly strict env (replaceDefaultAllDone host env str) := by
  apply Orderly.bind (orderly_replaceDone hhost _ _ _ _)
  intro next
  apply Orderly.bind (Orderly.quiet quiet_getMode)
  intro mode
  apply Orderly.ite (Orderly.pure _)
  apply Orderly.bind
  · exact Orderly.onHost (hhost.command _ (.run .bufferHook))
  intro _
  exact Orderly.pure _

theorem orderly_qregStringDone (cmd : StringCommand) (str : Bytes) :
    Orderly strict env (qregStringDone host env cmd str) := by
  apply Orderly.bind (Orderly.quiet quiet_expectqregResults)
  intro qreg
  apply Orderly.bind (Orderly.quiet quiet_expectqregReset)
  intro _
  exact orderly_hostStringDone_next hhost _ _ _ _

theorem orderly_stringDone (cmd : StringCommand) (str : Bytes) :
    Orderly strict env (stringDone host env cmd str) := by
  unfold stringDone
  split
  · apply Orderly.bind (Orderly.quiet quiet_getMode)
    intro mode
    apply Orderly.ite (Orderly.pure _)
    apply Orderly.bind (Orderly.quiet (quiet_gotoDone str))
    intro _
    exact Orderly.pure _
  · apply Orderly.bind (Orderly.quiet (quiet_interfaceMsg _ _))
    intro _
    exact Orderly.pure _
  · exact Orderly.pure _
  · exact Orderly.ite (Orderly.pure _)
      (orderly_hostStringDone_next hhost _ _ _ _)
  · exact orderly_replaceDone hhost _ _ _ _
  · exact orderly_replaceDone hhost _ _ _ _
  · exact orderly_replaceDefaultAllDone hhost _
  · exact orderly_hostStringDone_next hhost _ _ _ _
  · exact orderly_hostStringDone_next hhost _ _ _ _
  · exact orderly_qregStringDone hhost _ _
  · exact orderly_qregStringDone hhost _ _
  · exact orderly_qregStringDone hhost _ _
  · exact orderly_qregStringDone hhost _ _
  · exact orderly_hostStringDone_next hhost _ _ _ _

theorem orderly_expectstringInput (cmd : StringCommand) (chr : Gunichar) :
    Orderly strict env (expectstringInput host env cmd chr) := by
  have hfinish : Orderly strict env (finishString host env cmd) := by
    apply Orderly.bind (orderly_stringProcess hhost cmd)
    intro _
    apply Orderly.bind Orderly.get
    intro s
    exact Orderly.ensuring (orderly_stringDone hhost cmd _)
      (Orderly.quiet (quiet_resetString cmd))
  apply Orderly.bind Orderly.get
  intro s
  apply Orderly.ite (Orderly.pure _)
  apply Orderly.bind (Orderly.quiet quiet_evalAt)
  intro modifierAt
  apply Orderly.ite
  · apply Orderly.bind (Orderly.quiet (quiet_setEscapeChar _))
    intro _
    exact Orderly.pure _
  · apply Orderly.bind (Orderly.quiet (quiet_countNesting chr))
    intro _
    apply Orderly.bind Orderly.get
    intro t
    exact Orderly.ite hfinish
      (Orderly.quiet (quiet_accumulateString hhost.reads cmd chr))

theorem orderly_expectstringRefresh (cmd : StringCommand) :
    Orderly strict env (expectstringRefresh host env cmd) := by
  apply Orderly.bind Orderly.get
  intro s
  apply Orderly.bind (orderly_stringProcess hhost cmd)
  intro _
  apply Orderly.quiet
  apply Quiet.bind
  · exact quiet_undo (fun _ => rfl)
  intro _
  exact quiet_mapString _

theorem orderly_hostGotRegister (cmd : QRegCommand) (qreg : Option Reg)
    (table : Table) (modifierAt : Bool) :
    Orderly strict env
      (hostGotRegister host env cmd qreg table modifierAt) := by
  apply Orderly.bind (Orderly.quiet quiet_getMode)
  intro mode
  apply Orderly.ite (Orderly.pure ())
  exact Orderly.onHost (hhost.command _ (.gotRegister cmd _ _ _))

theorem orderly_gotRegister (cmd : QRegCommand) (qreg : Option Reg)
    (table : Table) :
    Orderly strict env (gotRegister host env cmd qreg table) := by
  have hwork : forall (cmd : QRegCommand) (modifierAt : Bool)
      (next : MainState), Orderly strict env (do
        hostGotRegister host env cmd qreg table modifierAt
        pure next) := by
    intro cmd modifierAt next
    apply Orderly.bind (orderly_hostGotRegister hhost _ _ _ _)
    intro _
    exact Orderly.pure _
  unfold gotRegister
  split
  · exact Orderly.pure _
  · exact Orderly.pure _
  · exact Orderly.pure _
  · exact Orderly.pure _
  · exact Orderly.bind (Orderly.quiet quiet_expectqregReset)
      (fun _ => hwork _ _ _)
  · apply Orderly.bind (Orderly.quiet quiet_expectqregReset)
    intro _
    exact Orderly.bind (Orderly.quiet quiet_evalAt) (fun _ => hwork _ _ _)
  · exact Orderly.bind (Orderly.quiet quiet_expectqregReset)
      (fun _ => hwork _ _ _)

theorem orderly_expectqregInput (cmd : QRegCommand) (chr : Gunichar) :
    Orderly strict env (expectqregInput host env cmd chr) := by
  apply Orderly.bind Orderly.get
  intro s
  split
  · exact Orderly.fault _
  · apply Orderly.bind
    · exact Orderly.quiet (quiet_expectqreg
        (quiet_qregSpecInput hhost.reads _ chr))
    intro status
    split
    · exact Orderly.pure _
    · exact orderly_gotRegister hhost _ _ _

end Arguments

/-!
## Commands
-/

/-- What a state does before it takes the next character as the beginning of a
command.  Other states do not begin commands with a transition callback in
normal mode. -/
def lookAhead (env : Env) : MainState -> Option (Exec (State W Reg) Unit)
  | .start => some (pure ())
  | .escape => some (do
      let s <- get
      if s.mode = Mode.normal then onExpr Expressions.discardArgs
      else pure ())
  | .printDecimal => some (printDeferred env 10)
  | .printOctal => some (printDeferred env 8)
  | _ => none

/-- Either the next character is not `;` or it can break the loop. -/
def BreaksWell (host : Host W Reg) (env : Env) (chr : Gunichar)
    (s : State W Reg) : Prop :=
  chr = ';'.toNat -> forall before,
    lookAhead env s.machine.current = some before ->
    forall t tokens, before s = .ok () t tokens -> t.mode = Mode.normal ->
    BreakSucceeds host t

section Commands

variable [DecidableEq Reg] (hhost : host.Nests strict env)
include hhost

omit [DecidableEq Reg] hhost in
theorem orderly_fcommandLoopEnd :
    Orderly strict env
      (fcommandLoopEnd env : Exec (State W Reg) Unit) := by
  apply Orderly.bind Orderly.get
  intro s
  split
  · exact Orderly.quiet quiet_returnArguments
  · apply Orderly.bind loopClose_disciplined
    intro _
    apply Orderly.bind Orderly.get
    intro t
    exact Orderly.ite (Orderly.quiet (quiet_setMode _)) (Orderly.pure ())

theorem runCallback_disciplined (callback : Callback) (s : State W Reg)
    (hbreak : strict -> callback = .loopBreak -> BreakSucceeds host s) :
    Leads (Disciplined strict env) (runCallback host env callback) s := by
  cases callback with
  | mul => exact Disciplined.quiet (quiet_onExpr _) s
  | div => exact Disciplined.quiet (quiet_onExpr _) s
  | plus => exact Disciplined.quiet (quiet_onExpr _) s
  | minus => exact Disciplined.quiet (quiet_onExpr _) s
  | and => exact Disciplined.quiet (quiet_onExpr _) s
  | or => exact Disciplined.quiet (quiet_onExpr _) s
  | braceOpen => exact Disciplined.quiet (quiet_onExpr _) s
  | braceClose => exact Disciplined.quiet (quiet_onExpr _) s
  | comma => exact Disciplined.quiet (quiet_onExpr _) s
  | negate => exact Disciplined.quiet quiet_controlNegate s
  | pow => exact Disciplined.quiet (quiet_onExpr _) s
  | mod => exact Disciplined.quiet (quiet_onExpr _) s
  | xor => exact Disciplined.quiet (quiet_onExpr _) s
  | loopOpen => exact loopOpen_disciplined s
  | loopClose => exact loopClose_disciplined s
  | loopBreak =>
      exact loopBreak_disciplined hhost.reads s
        (fun hstrict => hbreak hstrict rfl)
  | cmdlinePush =>
      exact Leads.ite
        (fun _ => Orderly.onHost (hhost.command _ (.run .cmdlinePush)) s)
        (fun _ => Leads.throw disciplined_composes _)
  | cmdlinePop => exact Disciplined.quiet quiet_cmdlinePop s
  | fcommandLoopStart => exact Disciplined.quiet quiet_fcommandLoopStart s
  | fcommandLoopEnd => exact orderly_fcommandLoopEnd s
  | fcommandCondEnd => exact Disciplined.quiet (quiet_setMode _) s
  | fcommandCondElse => exact Disciplined.quiet (quiet_setMode _) s
  | macrofileDeprecated =>
      exact Disciplined.quiet (quiet_interfaceMsg _ _) s
  | editor cmd => exact Orderly.onHost (hhost.command _ (.run cmd)) s

theorem transitionInput_disciplined
    (transitions : Char -> Option Transition) (chr : Gunichar)
    (s : State W Reg)
    (hbreak : strict -> s.mode = Mode.normal -> forall c transition,
      ascii chr = some c -> transitions c = some transition ->
      transition.callback = some .loopBreak -> BreakSucceeds host s) :
    Leads (Disciplined strict env)
      (transitionInput host env transitions chr) s := by
  have hcomp : Composes (@Disciplined W Reg strict env) :=
    disciplined_composes
  apply Leads.read hcomp
  split
  · exact Leads.throw hcomp _
  case h_2 transition hentry =>
    apply Leads.ite
    · intro _
      exact Leads.throw hcomp _
    · intro _
      split
      case h_1 callback hcallback =>
        apply Leads.ite
        · intro hnormal
          apply Leads.bind hcomp
          · apply runCallback_disciplined hhost
            intro hstrict heq
            rw [heq] at hcallback
            rcases Option.bind_eq_some_iff.mp hentry with ⟨c, hc, htable⟩
            exact hbreak hstrict hnormal c transition hc htable hcallback
          · intro _ t _ _
            exact Leads.pure hcomp _
        · intro _
          exact Leads.pure hcomp _
      · exact Leads.pure hcomp _

omit [DecidableEq Reg] hhost in
theorem startTransitions_loopBreak {c : Char} {transition : Transition}
    (h : startTransitions c = some transition)
    (hcallback : transition.callback = some .loopBreak) : c = ';' := by
  unfold startTransitions at h
  split at h <;>
    first
    | rfl
    | (injection h with h
       rw [<- h] at hcallback
       simp [simple, stringEntry, qregEntry] at hcallback)
    | cases h

/-- The other tables have no entry for `;`. -/
theorem orderly_transitionInput {transitions : Char -> Option Transition}
    (h : forall c transition, transitions c = some transition ->
      transition.callback ≠ some .loopBreak) (chr : Gunichar) :
    Orderly strict env (transitionInput host env transitions chr) := by
  intro s
  apply transitionInput_disciplined hhost
  intro _ _ c transition _ htable hcallback
  exact absurd hcallback (h c transition htable)

omit [DecidableEq Reg] hhost in
theorem controlTransitions_callback {c : Char} {transition : Transition}
    (h : controlTransitions c = some transition) :
    transition.callback ≠ some .loopBreak := by
  unfold controlTransitions at h
  split at h <;> first | (cases h; simp [simple, stringEntry, qregEntry]) |
    cases h

omit [DecidableEq Reg] hhost in
theorem fcommandTransitions_callback {c : Char} {transition : Transition}
    (h : fcommandTransitions c = some transition) :
    transition.callback ≠ some .loopBreak := by
  unfold fcommandTransitions at h
  split at h <;> first | (cases h; simp [simple, stringEntry]) | cases h

omit [DecidableEq Reg] hhost in
theorem ecommandTransitions_callback {c : Char} {transition : Transition}
    (h : ecommandTransitions c = some transition) :
    transition.callback ≠ some .loopBreak := by
  unfold ecommandTransitions at h
  split at h <;> first | (cases h; simp [simple, stringEntry, qregEntry]) |
    cases h

theorem orderly_controlInput (chr : Gunichar) :
    Orderly strict env (controlInput host env chr) :=
  orderly_transitionInput hhost
    (fun _ _ h => controlTransitions_callback h) _

theorem orderly_fcommandInput (chr : Gunichar) :
    Orderly strict env (fcommandInput host env chr) :=
  orderly_transitionInput hhost
    (fun _ _ h => fcommandTransitions_callback h) _

theorem orderly_ecommandInput (chr : Gunichar) :
    Orderly strict env (ecommandInput host env chr) :=
  orderly_transitionInput hhost
    (fun _ _ h => ecommandTransitions_callback h) _

omit [DecidableEq Reg] in
theorem orderly_wordCommand (cmd : Bool -> EditorCommand) :
    Orderly strict env (wordCommand host env cmd) := by
  apply Orderly.bind (Orderly.quiet quiet_evalAt)
  intro modifierAt
  apply Orderly.bind (Orderly.quiet quiet_getMode)
  intro mode
  apply Orderly.ite (Orderly.pure _)
  apply Orderly.bind
  · exact Orderly.onHost (hhost.command _ (.run _))
  intro _
  exact Orderly.pure _

/-- The beginning of a command. -/
theorem startInput_disciplined (chr : Gunichar) (s : State W Reg)
    (hbreak : strict -> chr = ';'.toNat -> s.mode = Mode.normal ->
      BreakSucceeds host s) :
    Leads (Disciplined strict env) (startInput host env chr) s := by
  have hcomp : Composes (@Disciplined W Reg strict env) :=
    disciplined_composes
  have htable : Leads (Disciplined strict env)
      (startTransition host env chr) s := by
    apply transitionInput_disciplined hhost
    intro hstrict hnormal c transition hc hentry hcallback
    rw [startTransitions_loopBreak hentry hcallback] at hc
    exact hbreak hstrict (asciiToUpper_semicolon (ascii_eq hc)) hnormal
  apply Leads.read hcomp
  apply Leads.ite
  · intro _
    exact Disciplined.quiet (quiet_unmodified chr (Quiet.pure ())) s
  · intro _
    apply Leads.ite
    · intro _
      exact Disciplined.quiet (quiet_unmodified chr (quiet_digit chr)) s
    · intro _
      split
      · exact Leads.ite (fun _ => Leads.pure hcomp _) (fun _ => htable)
      · apply Leads.ite (fun _ => Leads.throw hcomp _)
        intro _
        exact Leads.ite
          (fun _ => Disciplined.quiet quiet_skipLoopOpen s)
          (fun _ => htable)
      · apply Leads.ite (fun _ => Leads.throw hcomp _)
        intro _
        exact Leads.ite
          (fun _ => Disciplined.quiet quiet_skipLoopClose s)
          (fun _ => htable)
      · exact Disciplined.quiet (quiet_unmodified chr quiet_condElse) s
      · exact Disciplined.quiet (quiet_unmodified chr quiet_condEnd) s
      · exact orderly_wordCommand hhost _ s
      · exact orderly_wordCommand hhost _ s
      · exact orderly_wordCommand hhost _ s
      · exact orderly_wordCommand hhost _ s
      · exact orderly_wordCommand hhost _ s
      · exact orderly_wordCommand hhost _ s
      · exact orderly_wordCommand hhost _ s
      · exact orderly_wordCommand hhost _ s
      · exact Disciplined.quiet (quiet_atModifier chr) s
      · exact Disciplined.quiet (quiet_colonModifier chr) s
      · exact Leads.ite (fun _ => orderly_controlInput hhost _ s)
          (fun _ => htable)

theorem escapeInput_disciplined (chr : Gunichar) (s : State W Reg)
    (hbreak : strict -> chr = ';'.toNat -> forall t tokens,
      (do
        let s <- get
        if s.mode = Mode.normal then onExpr Expressions.discardArgs
        else pure () : Exec (State W Reg) Unit) s = .ok () t tokens ->
      t.mode = Mode.normal -> BreakSucceeds host t) :
    Leads (Disciplined strict env) (escapeInput host env chr) s := by
  have hcomp : Composes (@Disciplined W Reg strict env) :=
    disciplined_composes
  have hreturn : Quiet State.frame (do
      tecoReturn host env
      pure MainState.start) := by
    apply Quiet.bind quiet_tecoReturn
    intro _
    exact Quiet.pure _
  apply Leads.read hcomp
  apply Leads.ite
  · intro _
    exact Leads.ite (fun _ => Disciplined.quiet hreturn s)
      (fun _ => Leads.pure hcomp _)
  · intro _
    apply Leads.ite
    · intro hnormal
      apply Leads.bind hcomp (Disciplined.quiet (quiet_onExpr _) s)
      intro _ t tokens hrun
      apply startInput_disciplined hhost
      intro hstrict hchr hmode
      apply hbreak hstrict hchr t (tokens ++ []) _ hmode
      show (Undoable.bind Undoable.get _ s : Outcome _ _ _ _) = _
      unfold Undoable.bind Undoable.get
      dsimp only
      rw [if_pos hnormal, hrun]
    · intro hskip
      apply startInput_disciplined hhost
      intro _ _ hmode
      exact absurd hmode hskip

theorem orderly_ctlcControlInput (chr : Gunichar) :
    Orderly strict env (ctlcControlInput host env chr) := by
  apply Orderly.bind Orderly.get
  intro s
  apply Orderly.ite
  · apply Orderly.ite (Orderly.pure _)
    apply Orderly.ite (Orderly.throw _)
    apply Orderly.bind (Orderly.quiet (quiet_onExpr _))
    intro _
    exact Orderly.throw _
  · apply Orderly.ite
    · apply Orderly.bind (Orderly.quiet quiet_tecoReturn)
      intro _
      exact Orderly.pure _
    · exact orderly_controlInput hhost chr

/-- In normal mode this is always a return, and otherwise nothing is broken. -/
theorem orderly_ctlcInput (chr : Gunichar) :
    Orderly strict env (ctlcInput host env chr) := by
  have hreturn : Quiet State.frame (do
      tecoReturn host env
      pure MainState.start) := by
    apply Quiet.bind quiet_tecoReturn
    intro _
    exact Quiet.pure _
  intro s
  apply Leads.read disciplined_composes
  apply Leads.ite
  · intro _
    exact orderly_ctlcControlInput hhost _ s
  · intro _
    apply Leads.ite
    · intro _
      exact Leads.pure disciplined_composes _
    · intro _
      apply Leads.ite
      · intro _
        exact Disciplined.quiet hreturn s
      · intro hskip
        apply startInput_disciplined hhost
        intro _ _ hmode
        exact absurd hmode hskip

/-- A number is printed before the next command begins. -/
theorem deferred_disciplined (radix : Nat) (chr : Gunichar)
    (s : State W Reg)
    (hbreak : strict -> chr = ';'.toNat -> forall t tokens,
      printDeferred env radix s = .ok () t tokens ->
      t.mode = Mode.normal -> BreakSucceeds host t) :
    Leads (Disciplined strict env) (do
      printDeferred env radix
      startInput host env chr) s := by
  apply Leads.bind disciplined_composes
    (Disciplined.quiet (quiet_printDeferred radix) s)
  intro _ t tokens hrun
  apply startInput_disciplined hhost
  intro hstrict hchr hmode
  exact hbreak hstrict hchr t tokens hrun hmode

theorem stateInput_disciplined (chr : Gunichar) (s : State W Reg)
    (hbreak : strict -> BreaksWell host env chr s) :
    Leads (Disciplined strict env)
      (stateInput host env s.machine.current chr) s := by
  have hcomp : Composes (@Disciplined W Reg strict env) :=
    disciplined_composes
  have hbefore : strict -> chr = ';'.toNat -> forall before,
      lookAhead env s.machine.current = some before ->
      forall t tokens, before s = .ok () t tokens ->
      t.mode = Mode.normal -> BreakSucceeds host t :=
    fun hstrict hchr => hbreak hstrict hchr
  cases hstate : s.machine.current with
  | start =>
      rw [hstate] at hbefore
      apply startInput_disciplined hhost
      intro hstrict hchr hmode
      exact hbefore hstrict hchr _ rfl s [] rfl hmode
  | fcommand => exact orderly_fcommandInput hhost chr s
  | condcommand => exact Disciplined.quiet (quiet_condcommandInput chr) s
  | control => exact orderly_controlInput hhost chr s
  | ascii => exact Disciplined.quiet (quiet_asciiInput chr) s
  | escape =>
      rw [hstate] at hbefore
      apply escapeInput_disciplined hhost
      intro hstrict hchr
      exact hbefore hstrict hchr _ rfl
  | ctlc => exact orderly_ctlcInput hhost chr s
  | ctlcControl => exact orderly_ctlcControlInput hhost chr s
  | ecommand => exact orderly_ecommandInput hhost chr s
  | label => exact Disciplined.quiet (quiet_labelInput chr) s
  | blockcomment => exact Leads.pure hcomp _
  | blockcommentStar => exact Leads.pure hcomp _
  | eolcomment => exact Leads.pure hcomp _
  | printDecimal =>
      rw [hstate] at hbefore
      apply Leads.ite
      · intro _
        exact Leads.pure hcomp _
      · intro _
        apply deferred_disciplined hhost
        intro hstrict hchr
        exact hbefore hstrict hchr _ rfl
  | printOctal =>
      rw [hstate] at hbefore
      apply Leads.read hcomp
      apply Leads.ite
      · intro _
        have hprint : Quiet State.frame (do
            print env 16
            let _ <- onExpr (Expressions.popNum 0)
            pure MainState.start : Exec (State W Reg) MainState) := by
          apply Quiet.bind (quiet_print _)
          intro _
          apply Quiet.bind (quiet_onExpr _)
          intro _
          exact Quiet.pure _
        exact Leads.ite (fun _ => Disciplined.quiet hprint s)
          (fun _ => Leads.pure hcomp _)
      · intro _
        apply deferred_disciplined hhost
        intro hstrict hchr
        exact hbefore hstrict hchr _ rfl
  | expectqreg cmd => exact orderly_expectqregInput hhost cmd chr s
  | expectstring cmd => exact orderly_expectstringInput hhost cmd chr s

/-!
## Characters
-/

omit [DecidableEq Reg] in
theorem orderly_stateInitial (state : MainState) :
    Orderly strict env (stateInitial host env state) := by
  unfold stateInitial
  split
  · exact Orderly.quiet quiet_ctlcInitial
  · exact Orderly.quiet (quiet_printInitial _)
  · exact Orderly.quiet (quiet_printInitial _)
  · exact Orderly.quiet (quiet_expectqregInitial _)
  · exact orderly_stringInitial hhost _
  · exact Orderly.pure ()

omit [DecidableEq Reg] in
theorem orderly_stateRefresh (state : MainState) :
    Orderly strict env (stateRefresh host env state) := by
  unfold stateRefresh
  split
  · exact orderly_expectstringRefresh hhost _
  · exact Orderly.pure ()

omit [DecidableEq Reg] in
theorem orderly_enterState (next : MainState) :
    Orderly strict env (enterState host env next) := by
  apply Orderly.bind Orderly.get
  intro s
  apply Orderly.ite (Orderly.pure ())
  apply Orderly.bind
  · exact Orderly.quiet (quiet_undo (fun _ => rfl))
  intro _
  apply Orderly.bind
  · exact Orderly.quiet (Quiet.modify (fun _ => rfl))
  intro _
  exact orderly_stateInitial hhost next

theorem machineInput_disciplined (chr : Gunichar) (s : State W Reg)
    (hbreak : strict -> BreaksWell host env chr s) :
    Leads (Disciplined strict env) (machineInput host env chr) s := by
  apply Leads.read disciplined_composes
  apply Leads.bind disciplined_composes
  · exact stateInput_disciplined hhost chr s hbreak
  · intro next t _ _
    exact orderly_enterState hhost next t

end Commands

/-- Behind the next character of a macro. -/
def State.fetch (text : Bytes) (s : State W Reg) : State W Reg :=
  s.mapMachine (fun m =>
    { m with
      macroPc := m.macroPc +
        utf8Skip ((text.drop s.machine.macroPc).headD 0) })

/-- Either the next character of the macro is not `;` or it can break the
loop. -/
def StepBreaksWell (host : Host W Reg) (env : Env) (text : Bytes)
    (s : State W Reg) : Prop :=
  BreaksWell host env (utf8GetChar (text.drop s.machine.macroPc))
    (s.fetch text)

theorem stepCharacter_disciplined [DecidableEq Reg]
    (hhost : host.Nests strict env) (text : Bytes) (s : State W Reg)
    (hbreak : strict -> StepBreaksWell host env text s) :
    Leads (Disciplined strict env) (stepCharacter host env text) s := by
  apply Leads.read disciplined_composes
  split
  · exact Leads.throw disciplined_composes _
  · have hfetch : Quiet State.frame (modify (State.mapMachine (fun m =>
        { m with
          macroPc := m.macroPc +
            utf8Skip ((text.drop s.machine.macroPc).headD 0) })) :
        Exec (State W Reg) Unit) :=
      Quiet.modify (fun _ => rfl)
    apply Leads.bind disciplined_composes (Disciplined.quiet hfetch s)
    intro _ t _ ht
    cases ht
    exact machineInput_disciplined hhost _ _ hbreak

end Parser
end SciTECO
