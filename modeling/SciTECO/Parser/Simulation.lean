import SciTECO.Parser.SampleHost
import SciTECO.Parser.SyntaxArgument

/-!
# Parse-only simulation

Every character takes the machine to the state which its syntax determines.
Execution and skipping of the same code stay in step.
-/

namespace SciTECO
namespace Parser

open Undoable
open QReg (Table)

variable {W Reg : Type} {host : Host W Reg} {env : Env} {s : State W Reg}

/-!
## Entering a state
-/

/-- In parse-only mode, and in the start state, nothing is executed. -/
def Unmoved (s t : State W Reg) : Prop :=
  t.machine.macroPc = s.machine.macroPc ∧ t.mode = s.mode ∧
    t.machine.expectstring.insertLen = s.machine.expectstring.insertLen ∧
    t.editor = s.editor

/-- A state has been entered. -/
def Enters (step : Option Syntax) (next : MainState)
    (s t : State W Reg) : Prop :=
  t.WellFormed ∧ step = some t.toSyntax ∧
    (s.mode ≠ Mode.normal ∨ next = MainState.start -> Unmoved s t)

/-- A state cannot be entered. -/
def Refuses (step : Option Syntax) (next : MainState)
    (s t : State W Reg) : Prop :=
  s.mode ≠ Mode.normal ∨ next = MainState.start ->
    step = none ∧ t.editor = s.editor

theorem enters_same {step : Option Syntax} {next : MainState}
    (hwf : s.WellFormed) (hstep : step = some s.toSyntax) :
    Enters step next s s :=
  ⟨hwf, hstep, fun _ => ⟨rfl, rfl, rfl, rfl⟩⟩

/-- States with the same syntax differ in their string command only. -/
theorem normalize_eq_cases {a b : MainState}
    (h : a.normalize = b.normalize) :
    a = b ∨ exists cmd, a = MainState.expectstring cmd ∧
      cmd ≠ StringCommand.printString := by
  unfold MainState.normalize at h
  split at h <;> split at h <;> simp_all

/-- The machine with another code page for string building. -/
def State.withCodepage (codepage : Nat) (s : State W Reg) : State W Reg :=
  s.mapString (fun e =>
    { e with
      machine := e.machine.mapCore (fun c => { c with codepage := codepage }) })

@[simp] theorem wp_setCodepage (codepage : Nat)
    {post : Unit -> State W Reg -> Prop}
    {fail : TecoError -> State W Reg -> Prop} {bad : Fault -> Prop} :
    wp (setCodepage env codepage) post fail bad s <->
      post () (s.withCodepage codepage) := by
  unfold setCodepage
  simp only [wp_zoom, wp_bind, wp_getCore, wp_undoCore, wp_modifyCore]
  exact Iff.rfl

theorem wellFormed_withCodepage (codepage : Nat) (hwf : s.WellFormed) :
    (s.withCodepage codepage).WellFormed := by
  constructor
  · have hcore (sb : StringBuilding Reg) (h : sb.WellFormed) :
        (sb.mapCore (fun c =>
          { c with codepage := codepage })).WellFormed := by
      cases sb <;> exact h
    exact hcore _ hwf.1
  · exact hwf.2

theorem toSyntax_withCodepage (codepage : Nat) :
    (s.withCodepage codepage).toSyntax = s.toSyntax := by
  have hcore (sb : StringBuilding Reg) :
      (sb.mapCore (fun c => { c with codepage := codepage })).toSyntax =
        sb.toSyntax := by
    cases sb <;> rfl
  unfold State.toSyntax Machine.toSyntax State.withCodepage State.mapString
  simp [hcore]

/-- An initial callback has prepared the string building. -/
def Prepared (y : Syntax) (s t : State W Reg) : Prop :=
  t.WellFormed ∧ t.toSyntax = y ∧ (s.mode ≠ Mode.normal -> Unmoved s t)

theorem wp_hostStringInitial (cmd : StringCommand) (hwf : s.WellFormed) :
    wp (hostStringInitial host env cmd)
      (fun _ t => Prepared s.toSyntax s t)
      (fun _ _ => s.mode = Mode.normal) (fun _ => s.mode = Mode.normal) s := by
  unfold hostStringInitial
  rw [wp_bind, wp_getMode, wp_ite]
  split
  case isTrue =>
      exact ⟨hwf, rfl, fun _ => ⟨rfl, rfl, rfl, rfl⟩⟩
  case isFalse hmode =>
      have hnormal : s.mode = Mode.normal := not_not.mp hmode
      have hinitial {u : State W Reg} (hwfu : u.WellFormed)
          (hshape : u.toSyntax = s.toSyntax) :
          wp (onHost (host.stringInitial cmd env))
            (fun _ t => Prepared s.toSyntax s t)
            (fun _ _ => s.mode = Mode.normal)
            (fun _ => s.mode = Mode.normal) u := by
        apply (keeps_onHost _).wp
        · intro _ t ht
          refine ⟨wellFormed_of_fixed hwfu ht, ?_, ?_⟩
          · rw [toSyntax_of_fixed ht]
            exact hshape
          · intro h
            exact absurd hnormal h
        · intro _ _
          exact hnormal
        · intro _
          exact hnormal
      rw [wp_bind, wp_get, wp_bind]
      apply (keeps_onHost _).wp
      · intro codepage u hu
        have hwfu : u.WellFormed := wellFormed_of_fixed hwf hu
        have hshape : u.toSyntax = s.toSyntax := toSyntax_of_fixed hu
        cases codepage with
        | none => exact hinitial hwfu hshape
        | some codepage =>
            dsimp only
            rw [wp_bind, wp_setCodepage]
            apply hinitial (wellFormed_withCodepage codepage hwfu)
            rw [toSyntax_withCodepage]
            exact hshape
      · intro _ _
        exact hnormal
      · intro _
        exact hnormal

theorem wp_printStringInitial (hwf : s.WellFormed) :
    wp (printStringInitial host env)
      (fun _ t => Prepared
        { s.toSyntax with escapeChar := ctlKey 'A'.toNat } s t)
      (fun _ _ => s.mode = Mode.normal) (fun _ => s.mode = Mode.normal) s := by
  unfold printStringInitial
  rw [wp_bind, wp_setEscapeChar, wp_bind, wp_getMode, wp_ite]
  have hwf' := wellFormed_withEscapeChar (ctlKey 'A'.toNat) hwf
  have hshape := toSyntax_withEscapeChar (s := s) (ctlKey 'A'.toNat)
  split
  case isTrue =>
      exact ⟨hwf', hshape, fun _ => ⟨rfl, rfl, rfl, rfl⟩⟩
  case isFalse hmode =>
      have hnormal : s.mode = Mode.normal := not_not.mp hmode
      rw [wp_bind]
      apply keeps_evalColon.wp
      · intro colon u hu
        rw [wp_bind, wp_get, wp_setCodepage]
        refine ⟨wellFormed_withCodepage _ (wellFormed_of_fixed hwf' hu),
          ?_, ?_⟩
        · rw [toSyntax_withCodepage, toSyntax_of_fixed hu]
          exact hshape
        · intro h
          exact absurd hnormal h
      · intro _ _
        exact hnormal
      · intro _
        exact hnormal

theorem wp_stringInitial (cmd : StringCommand) (hwf : s.WellFormed)
    (hcmd : cmd ≠ StringCommand.printString) :
    wp (stringInitial host env cmd)
      (fun _ t => Prepared s.toSyntax s t)
      (fun _ _ => s.mode = Mode.normal) (fun _ => s.mode = Mode.normal) s := by
  have hsame : Prepared s.toSyntax s s :=
    ⟨hwf, rfl, fun _ => ⟨rfl, rfl, rfl, rfl⟩⟩
  unfold stringInitial
  split
  case h_1 => exact absurd rfl hcmd
  case h_2 => exact hsame
  case h_3 =>
      rw [wp_ite]
      split
      · exact wp_hostStringInitial cmd hwf
      · rw [wp_bind, wp_get, wp_ite]
        split
        case isTrue hnormal =>
            rw [wp_setCodepage]
            refine ⟨wellFormed_withCodepage _ hwf, ?_, ?_⟩
            · exact toSyntax_withCodepage _
            · intro h
              exact absurd hnormal h
        case isFalse => exact hsame

theorem enters_prepared {y : Syntax} {step : Option Syntax}
    {next : MainState} {t : State W Reg} (h : Prepared y s t)
    (hstep : step = some y) (hnext : next ≠ MainState.start) :
    Enters step next s t := by
  refine ⟨h.1, ?_, ?_⟩
  · rw [hstep, h.2.1]
  · intro hmode
    rcases hmode with hmode | hstart
    · exact h.2.2 hmode
    · exact absurd hstart hnext

theorem wp_expectqregInitial (cmd : QRegCommand) (hwf : s.WellFormed) :
    wp (expectqregInitial env host cmd)
      (fun _ t => Enters
        (some { s.toSyntax with
          qregspec := some ⟨.start, 0, SBSyntax.fresh⟩ })
        (MainState.expectqreg cmd) s t)
      (fun _ _ => False) (fun _ => False) s := by
  have hnew (type : QRegType) :
      wp (expectqregNew env host type)
        (fun _ t => Enters
          (some { s.toSyntax with
            qregspec := some ⟨.start, 0, SBSyntax.fresh⟩ })
          (MainState.expectqreg cmd) s t)
        (fun _ _ => False) (fun _ => False) s := by
    unfold expectqregNew
    simp only [wp_bind, wp_get, wp_modify, wp_undo]
    refine ⟨⟨hwf.1, ?_⟩, rfl, fun _ => ⟨rfl, rfl, rfl, rfl⟩⟩
    intro spec h
    rw [<- Option.some.inj h]
    simp [QRegSpec.new, StringBuilding.init, StringBuilding.WellFormed,
      SBState.readsSpec]
  unfold expectqregInitial
  rw [wp_bind, wp_get]
  dsimp only
  split
  · exact hnew _
  · exact hnew _

/-- A callback in normal mode, for a state that is not the start state. -/
theorem wp_enterHosted {m : Exec (State W Reg) Unit} {next : MainState}
    (hwf : s.WellFormed) (hnext : next ≠ MainState.start)
    (hm : s.mode = Mode.normal -> Keeps State.fixed m)
    (hskip : s.mode ≠ Mode.normal -> m s = .ok () s []) :
    wp m (fun _ t => Enters (some s.toSyntax) next s t)
      (fun _ t => Refuses (some s.toSyntax) next s t)
      (fun _ => s.mode ≠ Mode.normal ∨ next = MainState.start ->
        some s.toSyntax = none) s := by
  by_cases hmode : s.mode = Mode.normal
  · have hvacuous : ¬(s.mode ≠ Mode.normal ∨ next = MainState.start) := by
      rintro (h | h)
      · exact h hmode
      · exact hnext h
    apply (hm hmode).wp
    · intro _ t ht
      refine ⟨wellFormed_of_fixed hwf ht, ?_, ?_⟩
      · rw [toSyntax_of_fixed ht]
      · intro h
        exact absurd h hvacuous
    · intro _ _ h
      exact absurd h hvacuous
    · intro _ h
      exact absurd h hvacuous
  · unfold wp
    rw [hskip hmode]
    exact enters_same hwf rfl

theorem wp_stateInitial (next : MainState) (hwf : s.WellFormed) :
    wp (stateInitial host env next)
      (fun _ t => Enters (s.toSyntax.initial env next.normalize) next s t)
      (fun _ t => Refuses (s.toSyntax.initial env next.normalize) next s t)
      (fun _ => s.mode ≠ Mode.normal ∨ next = MainState.start ->
        s.toSyntax.initial env next.normalize = none) s := by
  have hprint (radix : Nat) (hmode : s.mode ≠ Mode.normal) :
      printInitial env radix s = .ok () s [] := by
    unfold printInitial
    change Undoable.bind Undoable.get _ s = _
    simp [Undoable.bind, Undoable.get, hmode]
    rfl
  cases next with
  | ctlc =>
      unfold stateInitial ctlcInitial
      simp only [MainState.normalize, Syntax.initial]
      split
      · intro _
        exact ⟨rfl, rfl⟩
      · exact enters_same hwf rfl
  | printDecimal =>
      exact wp_enterHosted hwf (by simp)
        (fun _ => keeps_printInitial 10) (hprint 10)
  | printOctal =>
      exact wp_enterHosted hwf (by simp)
        (fun _ => keeps_printInitial 8) (hprint 8)
  | expectqreg cmd =>
      apply wp_mono (wp_expectqregInitial cmd hwf)
      · intro _ _ h
        exact h
      · intro _ _ h
        exact h.elim
      · intro _ h
        exact h.elim
  | expectstring cmd =>
      have hvacuous (h : s.mode = Mode.normal) :
          ¬(s.mode ≠ Mode.normal ∨
            MainState.expectstring cmd = MainState.start) := by
        simp [h]
      by_cases hcmd : cmd = StringCommand.printString
      · subst hcmd
        apply wp_mono (wp_printStringInitial hwf)
        · intro _ t ht
          exact enters_prepared ht rfl (by simp)
        · intro _ _ h h'
          exact absurd h' (hvacuous h)
        · intro _ h h'
          exact absurd h' (hvacuous h)
      · have hstep : s.toSyntax.initial env
            (MainState.expectstring cmd).normalize = some s.toSyntax := by
          cases cmd <;> first | rfl | exact absurd rfl hcmd
        apply wp_mono (wp_stringInitial cmd hwf hcmd)
        · intro _ t ht
          exact enters_prepared ht hstep (by simp)
        · intro _ _ h h'
          exact absurd h' (hvacuous h)
        · intro _ h h'
          exact absurd h' (hvacuous h)
  | start => exact enters_same hwf rfl
  | fcommand => exact enters_same hwf rfl
  | condcommand => exact enters_same hwf rfl
  | control => exact enters_same hwf rfl
  | ascii => exact enters_same hwf rfl
  | escape => exact enters_same hwf rfl
  | ctlcControl => exact enters_same hwf rfl
  | ecommand => exact enters_same hwf rfl
  | label => exact enters_same hwf rfl
  | blockcomment => exact enters_same hwf rfl
  | blockcommentStar => exact enters_same hwf rfl
  | eolcomment => exact enters_same hwf rfl

theorem wp_enterState {n : MainState} (next : MainState)
    (hwf : s.WellFormed) (hn : n.normalize = next.normalize) :
    wp (enterState host env next)
      (fun _ t => Enters (s.toSyntax.enter env n) next s t)
      (fun _ t => Refuses (s.toSyntax.enter env n) next s t)
      (fun _ => s.mode ≠ Mode.normal ∨ next = MainState.start ->
        s.toSyntax.enter env n = none) s := by
  have hcurrent : s.toSyntax.current = s.machine.current.normalize := rfl
  unfold enterState Syntax.enter
  rw [wp_bind, wp_get, hn, hcurrent]
  by_cases hsame : next = s.machine.current
  · rw [if_pos hsame, if_pos (by rw [hsame])]
    exact enters_same hwf rfl
  rw [if_neg hsame]
  simp only [wp_bind, wp_undo, wp_modify]
  have hinitial : wp (stateInitial host env next) _ _ _ _ :=
    wp_stateInitial (s := s.mapMachine (fun m =>
      { m with current := next })) next hwf
  by_cases hnormalize : next.normalize = s.machine.current.normalize
  · rw [if_pos hnormalize]
    rcases normalize_eq_cases hnormalize with h | ⟨cmd, hcmd, hprint⟩
    · exact absurd h hsame
    · have hstep : (s.mapMachine (fun m =>
          { m with current := next })).toSyntax.initial env next.normalize =
          some s.toSyntax := by
        have hy : (s.mapMachine (fun m =>
            { m with current := next })).toSyntax = s.toSyntax := by
          unfold State.toSyntax Machine.toSyntax State.mapMachine
          simp only [hnormalize]
        rw [hy, hcmd]
        cases cmd <;> first | rfl | exact absurd rfl hprint
      rw [hstep] at hinitial
      exact hinitial
  · rw [if_neg hnormalize]
    exact hinitial

/-!
## Reading a character
-/

/-- The character ends the string argument of a command. -/
def EndsArgument (host : Host W Reg) (cmd : StringCommand)
    (s : State W Reg) (chr : Gunichar) : Prop :=
  s.machine.current = MainState.expectstring cmd ∧
    s.toSyntax.EndsString host.glib.toUpper chr

/-- The commands which print a message without looking at the mode: the string
of `^A`, and the warning about a label. -/
def Speaks (host : Host W Reg) (s : State W Reg) (chr : Gunichar) : Prop :=
  EndsArgument host StringCommand.printString s chr ∨
    s.machine.current = MainState.label ∧ chr = '!'.toNat ∧
      s.machine.gotoLabel ≠ [] ∧ s.redefinesLabel

/-- No part of a string waits to be processed, and nothing is printed. -/
def Silent (host : Host W Reg) (s : State W Reg) (chr : Gunichar) : Prop :=
  s.machine.expectstring.insertLen = 0 ∧ ¬Speaks host s chr

/-- The end of a string argument is processed in every mode. -/
def Processes (host : Host W Reg) (env : Env) (s : State W Reg)
    (chr : Gunichar) : Prop :=
  forall cmd, EndsArgument host cmd s chr -> ProcessOk host env cmd s

theorem reads_weaken {step : Option (MainState × Syntax)}
    {quiet quiet' : Prop} {next : MainState} {t : State W Reg}
    (h : Reads step quiet s next t) (hquiet : quiet' -> quiet) :
    Reads step quiet' s next t := by
  refine ⟨h.1, h.2.1, ?_⟩
  intro hmode
  rcases h.2.2 hmode with ⟨hpc, hleave, hsame⟩
  exact ⟨hpc, hleave, fun hq => hsame (hquiet hq)⟩

theorem rejects_weaken {step : Option (MainState × Syntax)}
    {quiet quiet' : Prop} {t : State W Reg} (h : Rejects step quiet s t)
    (hquiet : quiet' -> quiet) : Rejects step quiet' s t := by
  intro hmode
  rcases h hmode with ⟨hnone, hsame⟩
  exact ⟨hnone, fun hq => hsame (hquiet hq)⟩

/-- The string command of a syntactic state. -/
def StringCommand.normalize : StringCommand -> StringCommand
  | replaceInsert => replaceIgnore
  | replaceDefaultInsert => replaceDefaultIgnore
  | cmd => cmd

theorem normalize_expectstring (cmd : StringCommand) :
    (MainState.expectstring cmd).normalize =
      MainState.expectstring cmd.normalize := by
  cases cmd <;> rfl

theorem normalize_normalize (a : MainState) :
    a.normalize.normalize = a.normalize := by
  cases a with
  | expectstring cmd => cases cmd <;> rfl
  | _ => rfl

theorem afterString_normalize (cmd : StringCommand) :
    Syntax.afterString cmd.normalize = (Syntax.afterString cmd).normalize := by
  cases cmd <;> rfl

/-- Two string commands with the same syntax read it in the same way. -/
theorem expectstringInput_normalize {toUpper : Gunichar -> Gunichar}
    {y : Syntax} {chr : Gunichar} (cmd : StringCommand) :
    y.expectstringInput toUpper cmd.normalize chr =
      (y.expectstringInput toUpper cmd chr).map
        (fun p => (p.1.normalize, p.2)) := by
  have hqreg : cmd.normalize.hasQReg = cmd.hasQReg := by
    cases cmd <;> rfl
  have hlast : cmd.normalize.last = cmd.last := by
    cases cmd <;> rfl
  have hbuilding : cmd.normalize.stringBuilding = cmd.stringBuilding := by
    cases cmd <;> rfl
  unfold Syntax.expectstringInput Syntax.finishString
  simp only [hqreg, hlast, hbuilding, <- normalize_expectstring,
    afterString_normalize]
  split
  · rfl
  split
  · rfl
  split
  · split
    · rfl
    · rfl
  split
  · cases y.stringbuilding.step chr <;> rfl
  · rfl

theorem reads_map {step : Option (MainState × Syntax)} {quiet : Prop}
    {next : MainState} {t : State W Reg} (h : Reads step quiet s next t) :
    Reads (step.map (fun p => (p.1.normalize, p.2))) quiet s next t := by
  rcases h with ⟨hwf, ⟨n, hstep, hn⟩, hskip⟩
  refine ⟨hwf, ⟨n.normalize, ?_, ?_⟩, hskip⟩
  · rw [hstep]
    rfl
  · rw [normalize_normalize, hn]

theorem rejects_map {step : Option (MainState × Syntax)} {quiet : Prop}
    {t : State W Reg} (h : Rejects step quiet s t) :
    Rejects (step.map (fun p => (p.1.normalize, p.2))) quiet s t := by
  intro hmode
  rcases h hmode with ⟨hnone, hsame⟩
  exact ⟨by rw [hnone]; rfl, hsame⟩

/-!
## Twins
-/

/-- Two machines are at the same position of the code, in the same syntactic
state: the state itself, the string building and Q-Register specification
machines, the escape character, the nesting of braces and the modifier `@`. -/
structure InStep (s t : State W Reg) : Prop where
  toSyntax : t.toSyntax = s.toSyntax
  macroPc : t.machine.macroPc = s.machine.macroPc

theorem InStep.start_iff {s t : State W Reg} (h : InStep s t) :
    t.machine.current = MainState.start <->
      s.machine.current = MainState.start := by
  have hcurrent : t.machine.current.normalize =
      s.machine.current.normalize := congrArg Syntax.current h.toSyntax
  have hstart (a : MainState) :
      a.normalize = MainState.start <-> a = MainState.start := by
    cases a with
    | expectstring cmd => cases cmd <;> simp [MainState.normalize]
    | _ => simp [MainState.normalize]
  rw [<- hstart, hcurrent, hstart]

/-- The parse-only twin of a machine.  Nothing of its string argument waits to
be processed, or it differs in its mode only. -/
structure Twin (s t : State W Reg) : Prop where
  inStep : InStep s t
  skips : t.mode ≠ Mode.normal
  nestLevel : t.machine.nestLevel = s.machine.nestLevel
  wellFormed : t.WellFormed
  pending : t.machine.expectstring.insertLen = 0 ∨
    t = s.mapFlags (fun f => { f with mode := t.mode })

/-- Without anything to process nothing can go wrong. -/
theorem processes_of_insertLen {chr : Gunichar}
    (h : s.machine.expectstring.insertLen = 0) :
    Processes host env s chr := by
  intro cmd _
  rw [processOk_iff]
  unfold stringProcess
  rw [wp_bind, wp_get, if_pos h]
  trivial

theorem Twin.processes {s t : State W Reg} {chr : Gunichar}
    (h : Twin s t) (hs : Processes host env s chr) :
    Processes host env t chr := by
  rcases h.pending with hzero | hmode
  · exact processes_of_insertLen hzero
  · intro cmd hends
    rw [EndsArgument, h.inStep.toSyntax] at hends
    have hcurrent : t.machine.current = s.machine.current := by
      rw [hmode]
      rfl
    rw [hcurrent] at hends
    rw [hmode]
    exact processOk_congr (s := s) rfl rfl rfl rfl (hs cmd hends)

/-!
## Steps
-/

variable [DecidableEq Reg]

/-- The callbacks of all states. -/
theorem wp_stateInput (chr : Gunichar) (hwf : s.WellFormed)
    (hprocess : s.mode ≠ Mode.normal -> Processes host env s chr) :
    wp (stateInput host env s.machine.current chr)
      (fun next t => Processes host env s chr ∧
        Reads (s.toSyntax.input host.glib.toUpper env chr)
          (Silent host s chr) s next t)
      (fun _ t => Rejects (s.toSyntax.input host.glib.toUpper env chr)
        (Silent host s chr) s t)
      (fun _ => Crashes (s.toSyntax.input host.glib.toUpper env chr) s)
      s := by
  have hcurrent : s.toSyntax.current = s.machine.current.normalize := rfl
  -- A state without a string argument, whose characters are always quiet.
  have hother {m : Exec (State W Reg) MainState}
      {step : Option (MainState × Syntax)}
      (hstate : forall cmd, s.machine.current ≠ .expectstring cmd)
      (hstep : s.toSyntax.input host.glib.toUpper env chr = step)
      (hm : wp m (fun next t => Reads step True s next t)
        (fun _ t => Rejects step True s t) (fun _ => Crashes step s) s) :
      wp m
        (fun next t => Processes host env s chr ∧
          Reads (s.toSyntax.input host.glib.toUpper env chr)
            (Silent host s chr) s next t)
        (fun _ t => Rejects (s.toSyntax.input host.glib.toUpper env chr)
          (Silent host s chr) s t)
        (fun _ => Crashes (s.toSyntax.input host.glib.toUpper env chr) s)
        s := by
    rw [hstep]
    apply wp_mono hm
    · intro next t ht
      constructor
      · intro cmd hends
        exact absurd hends.1 (hstate cmd)
      · exact reads_weaken ht (fun _ => trivial)
    · intro _ t ht
      exact rejects_weaken ht (fun _ => trivial)
    · intro _ h
      exact h
  unfold Syntax.input at hother ⊢
  cases hstate : s.machine.current with
  | start =>
      apply hother (by simp [hstate]) (by rw [hcurrent, hstate])
      exact wp_startInput chr hwf
  | fcommand =>
      apply hother (by simp [hstate]) (by rw [hcurrent, hstate])
      exact wp_transitionInput _ _ hwf
  | condcommand =>
      apply hother (by simp [hstate]) (by rw [hcurrent, hstate])
      exact wp_condcommandInput chr hwf
  | control =>
      apply hother (by simp [hstate]) (by rw [hcurrent, hstate])
      exact wp_controlInput chr hwf
  | ascii =>
      apply hother (by simp [hstate]) (by rw [hcurrent, hstate])
      exact wp_asciiInput chr hwf
  | escape =>
      apply hother (by simp [hstate]) (by rw [hcurrent, hstate])
      exact wp_escapeInput chr hwf
  | ctlc =>
      apply hother (by simp [hstate]) (by rw [hcurrent, hstate])
      exact wp_ctlcInput chr hwf
  | ctlcControl =>
      apply hother (by simp [hstate]) (by rw [hcurrent, hstate])
      exact wp_ctlcControlInput chr hwf
  | ecommand =>
      apply hother (by simp [hstate]) (by rw [hcurrent, hstate])
      exact wp_transitionInput _ _ hwf
  | label =>
      have hinput : s.toSyntax.input host.glib.toUpper env chr =
          some (s.toSyntax.labelInput chr) := by
        unfold Syntax.input
        rw [hcurrent, hstate]
        rfl
      unfold Syntax.input at hinput
      rw [hinput]
      apply wp_mono (wp_labelInput chr hwf)
      · intro next t ht
        constructor
        · intro cmd hends
          exact absurd hends.1 (by simp [hstate])
        · apply reads_weaken ht
          intro hsilent hend hlabel hredefines
          exact hsilent.2 (Or.inr ⟨hstate, hend, hlabel, hredefines⟩)
      · intro _ _ h
        exact h.elim
      · intro _ h
        exact h.elim
  | blockcomment =>
      apply hother (by simp [hstate]) (by rw [hcurrent, hstate])
      exact reads_same hwf rfl rfl
  | blockcommentStar =>
      apply hother (by simp [hstate]) (by rw [hcurrent, hstate])
      exact reads_same hwf rfl rfl
  | eolcomment =>
      apply hother (by simp [hstate]) (by rw [hcurrent, hstate])
      exact reads_same hwf rfl rfl
  | printDecimal =>
      apply hother (by simp [hstate]) (by rw [hcurrent, hstate])
      exact wp_printDecimalInput chr hwf
  | printOctal =>
      apply hother (by simp [hstate]) (by rw [hcurrent, hstate])
      exact wp_printOctalInput chr hwf
  | expectqreg cmd =>
      apply hother (by simp [hstate]) (by rw [hcurrent, hstate])
      exact wp_expectqregInput cmd chr hwf
  | expectstring cmd =>
      have hinput : s.toSyntax.input host.glib.toUpper env chr =
          (s.toSyntax.expectstringInput host.glib.toUpper cmd chr).map
            (fun p => (p.1.normalize, p.2)) := by
        unfold Syntax.input
        rw [hcurrent, hstate, normalize_expectstring]
        exact expectstringInput_normalize cmd
      unfold Syntax.input at hinput
      rw [hinput]
      have hquiet (h : Silent host s chr) :
          s.machine.expectstring.insertLen = 0 ∧
            ¬(cmd = StringCommand.printString ∧
              s.toSyntax.EndsString host.glib.toUpper chr) := by
        refine ⟨h.1, ?_⟩
        rintro ⟨rfl, hends⟩
        exact h.2 (Or.inl ⟨hstate, hends⟩)
      apply wp_mono (wp_expectstringInput cmd chr hwf
        (fun hmode hends => hprocess hmode cmd ⟨hstate, hends⟩))
      · intro next t ht
        constructor
        · intro cmd' hends
          rw [EndsArgument, hstate, MainState.expectstring.injEq] at hends
          rw [<- hends.1]
          exact ht.1 hends.2
        · exact reads_weaken (reads_map ht.2) hquiet
      · intro _ t ht
        exact rejects_weaken (rejects_map ht) hquiet
      · intro _ h hmode
        rw [h hmode]
        rfl

/-- A character takes the machine to the state which its syntax determines. -/
theorem wp_machineInput (chr : Gunichar) (hwf : s.WellFormed)
    (hprocess : s.mode ≠ Mode.normal -> Processes host env s chr) :
    wp (machineInput host env chr)
      (fun _ t =>
        t.WellFormed ∧ Processes host env s chr ∧
          s.toSyntax.step host.glib.toUpper env chr = some t.toSyntax ∧
          (s.mode ≠ Mode.normal ->
            t.machine.macroPc = s.machine.macroPc ∧
              (Silent host s chr ->
                t.machine.expectstring.insertLen = 0 ∧
                  t.editor = s.editor)))
      (fun _ t => s.mode ≠ Mode.normal ->
        s.toSyntax.step host.glib.toUpper env chr = none ∧
          (Silent host s chr -> t.editor = s.editor))
      (fun _ => s.mode ≠ Mode.normal ->
        s.toSyntax.step host.glib.toUpper env chr = none) s := by
  unfold machineInput
  rw [wp_bind, wp_get, wp_bind]
  apply wp_mono (wp_stateInput chr hwf hprocess)
  · intro next u hu
    rcases hu with ⟨hprocesses, hwfu, ⟨n, hinput, hn⟩, hskip⟩
    have hstep : s.toSyntax.step host.glib.toUpper env chr =
        u.toSyntax.enter env n := by
      rw [Syntax.step, hinput]
      rfl
    rw [hstep]
    apply wp_mono (wp_enterState next hwfu hn)
    · intro _ t ht
      rcases ht with ⟨hwft, henter, hunmoved⟩
      refine ⟨hwft, hprocesses, henter, ?_⟩
      intro hmode
      rcases hskip hmode with ⟨hpc, hleave, hquiet⟩
      rcases hunmoved hleave with ⟨hpct, _, hlen, heditor⟩
      refine ⟨hpct.trans hpc, ?_⟩
      intro hsilent
      rcases hquiet hsilent with ⟨hlenu, heditoru⟩
      exact ⟨(hlen.trans hlenu).trans hsilent.1, heditor.trans heditoru⟩
    · intro _ t ht hmode
      rcases hskip hmode with ⟨_, hleave, hquiet⟩
      rcases ht hleave with ⟨hnone, heditor⟩
      exact ⟨hnone, fun h => heditor.trans (hquiet h).2⟩
    · intro _ ht hmode
      exact ht (hskip hmode).2.1
  · intro _ t ht hmode
    rcases ht hmode with ⟨hnone, hquiet⟩
    refine ⟨?_, hquiet⟩
    rw [Syntax.step, hnone]
    rfl
  · intro _ h hmode
    rw [Syntax.step, h hmode]
    rfl

/-- If the code is executed without a jump, its parse-only twin succeeds, too,
and both remain in step. -/
theorem parseOnly_simulates {chr : Gunichar} {s s' t : State W Reg}
    {tokens : List (State W Reg -> State W Reg)} (hwf : s.WellFormed)
    (hmode : s.mode = Mode.normal) (htwin : Twin s t)
    (hrun : machineInput host env chr s = .ok () s' tokens)
    (hjump : s'.machine.macroPc = s.machine.macroPc) :
    exists t' tokens',
      machineInput host env chr t = .ok () t' tokens' ∧ InStep s' t' ∧
        (t'.machine.current = MainState.start <->
          s'.machine.current = MainState.start) := by
  have hnormal : wp (machineInput host env chr) _ _ _ s :=
    wp_machineInput chr hwf (fun h => absurd hmode h)
  rcases wp_ok hnormal hrun with ⟨_, hprocesses, hstep, _⟩
  have htwinOk := htwin.processes hprocesses
  have hskip : wp (machineInput host env chr) _ _ _ t :=
    wp_machineInput chr htwin.wellFormed (fun _ => htwinOk)
  rw [htwin.inStep.toSyntax, hstep] at hskip
  unfold wp at hskip
  cases htrun : machineInput host env chr t with
  | ok u t' tokens' =>
      rw [htrun] at hskip
      rcases hskip with ⟨_, _, hshape, hkept⟩
      have hinStep : InStep s' t' :=
        { toSyntax := (Option.some.inj hshape).symm
          macroPc := by
            rw [(hkept htwin.skips).1, htwin.inStep.macroPc, hjump] }
      exact ⟨t', tokens', rfl, hinStep, hinStep.start_iff⟩
  | error e t' tokens' =>
      rw [htrun] at hskip
      exact absurd (hskip htwin.skips).1 (by simp)
  | fault c =>
      rw [htrun] at hskip
      exact absurd (hskip htwin.skips) (by simp)

/-- The beginning of an insertion. -/
theorem parseOnly_simulates_insert :
    exists s' t' : State SampleWorld SampleReg, InStep s' t' ∧
      s'.machine.current = .expectstring .insertPlain := by
  have hrun : exists s' tokens,
      machineInput sampleHost (sampleEnv [] 0 0) 'I'.toNat sampleStart =
          .ok () s' tokens ∧
        s'.machine.macroPc = sampleStart.machine.macroPc ∧
        s'.machine.current = .expectstring .insertPlain :=
    ⟨_, _, rfl, rfl, rfl⟩
  rcases hrun with ⟨s', tokens, hrun, hjump, hcurrent⟩
  have hwf : sampleStart.WellFormed := by
    refine ⟨⟨rfl, fun h => by simp at h⟩, ?_⟩
    intro spec h
    exact absurd h (by simp [sampleStart, Machine.init])
  have htwin : Twin sampleStart (sampleStart.mapFlags (fun f =>
      { f with mode := Mode.parseOnlyCond })) :=
    { inStep := ⟨rfl, rfl⟩
      skips := by decide
      nestLevel := rfl
      wellFormed := hwf
      pending := Or.inl rfl }
  rcases parseOnly_simulates hwf rfl htwin hrun hjump with
    ⟨t', tokens', _, hstep, _⟩
  exact ⟨s', t', hstep, hcurrent⟩

end Parser
end SciTECO
