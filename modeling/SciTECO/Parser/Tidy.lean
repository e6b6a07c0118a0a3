import SciTECO.Parser.WellNested

/-!
# What a command leaves behind

Outside of its argument, nothing of a command is left in the syntactic state:
the only thing that a command can hand over to the next one is an `@`.
-/

namespace SciTECO
namespace Parser

variable {toUpper : Gunichar -> Gunichar} {env : Env} {chr : Gunichar}

/-!
## Tidiness
-/

/-- What belongs to an argument is as in a new machine, unless the argument is
being read. -/
structure Syntax.Tidy (y : Syntax) : Prop where
  string : (forall cmd, y.current ≠ MainState.expectstring cmd) ->
    y.escapeChar = 0x1B ∧ y.nesting = 1
  building : (forall cmd, cmd.stringBuilding = true ->
      y.current ≠ MainState.expectstring cmd) ->
    y.stringbuilding = SBSyntax.fresh
  qregspec : (forall cmd, y.current ≠ MainState.expectqreg cmd) ->
    (forall cmd, cmd.hasQReg = true ->
      y.current ≠ MainState.expectstring cmd) -> y.qregspec = none
  label : y.current ≠ MainState.label -> y.labelEmpty = true
  modifierAt : y.current = MainState.label -> y.modifierAt = false

/-- Nothing of an argument is left. -/
structure Syntax.Plain (y : Syntax) : Prop where
  escapeChar : y.escapeChar = 0x1B
  nesting : y.nesting = 1
  stringbuilding : y.stringbuilding = SBSyntax.fresh
  qregspec : y.qregspec = none
  labelEmpty : y.labelEmpty = true

/-- The states which read an argument. -/
def MainState.readsArgument : MainState -> Bool
  | expectqreg _ => true
  | expectstring _ => true
  | label => true
  | _ => false

namespace Syntax

variable {w y z : Syntax} {next : MainState}

theorem tidy_fresh : fresh.Tidy :=
  ⟨fun _ => ⟨rfl, rfl⟩, fun _ => rfl, fun _ _ => rfl, fun _ => rfl,
    fun _ => rfl⟩

theorem Plain.tidy (h : y.Plain)
    (hlabel : y.current = MainState.label -> y.modifierAt = false) :
    y.Tidy :=
  ⟨fun _ => ⟨h.escapeChar, h.nesting⟩, fun _ => h.stringbuilding,
    fun _ _ => h.qregspec, fun _ => h.labelEmpty, hlabel⟩

theorem Tidy.plain (h : y.Tidy) (hcurrent : y.current.readsArgument = false) :
    y.Plain := by
  have hstring (cmd : StringCommand) :
      y.current ≠ MainState.expectstring cmd := by
    intro heq
    rw [heq] at hcurrent
    cases hcurrent
  have hqreg (cmd : QRegCommand) : y.current ≠ MainState.expectqreg cmd := by
    intro heq
    rw [heq] at hcurrent
    cases hcurrent
  have hlabel : y.current ≠ MainState.label := by
    intro heq
    rw [heq] at hcurrent
    cases hcurrent
  exact ⟨(h.string hstring).1, (h.string hstring).2,
    h.building (fun cmd _ => hstring cmd),
    h.qregspec hqreg (fun cmd _ => hstring cmd), h.label hlabel⟩

/-- At the beginning of a command without an `@`, a machine is as good as
new. -/
theorem Tidy.fresh (h : y.Tidy) (hcurrent : y.current = MainState.start)
    (hat : y.modifierAt = false) : y = Syntax.fresh := by
  have hplain : y.Plain := by
    apply h.plain
    rw [hcurrent]
    rfl
  rcases hplain with ⟨hescape, hnesting, hbuilding, hqreg, hlabel⟩
  cases y
  dsimp only at hcurrent hat hescape hnesting hbuilding hqreg hlabel
  rw [hcurrent, hat, hescape, hnesting, hbuilding, hqreg, hlabel]
  rfl

/-- Between two commands a machine is as good as new, but for what it may look
ahead for. -/
theorem Tidy.between (h : y.Tidy) (hbetween : y.BetweenCommands) :
    { y with current := MainState.start } = Syntax.fresh := by
  have hcurrent : y.current.readsArgument = false := by
    rcases hbetween.current with heq | heq | heq | heq | heq
    all_goals
      rw [heq]
      rfl
  have hplain := h.plain hcurrent
  have htidy : ({ y with current := MainState.start } : Syntax).Tidy :=
    Plain.tidy (y := { y with current := MainState.start })
      ⟨hplain.escapeChar, hplain.nesting, hplain.stringbuilding,
        hplain.qregspec, hplain.labelEmpty⟩ (fun heq => by cases heq)
  exact htidy.fresh rfl hbetween.modifierAt

/-!
## Entering a state
-/

theorem normalize_label (h : next.normalize = MainState.label) :
    next = MainState.label :=
  (normalize_eq_iff (by simp)).mp h

/-- A state is entered from outside of an argument. -/
theorem tidy_enter (h : y.Plain)
    (hlabel : next = MainState.label -> y.modifierAt = false)
    (henter : y.enter env next = some z) : z.Tidy := by
  unfold enter at henter
  split at henter
  case isTrue hsame =>
      cases henter
      exact h.tidy (fun heq => hlabel (normalize_label (hsame.trans heq)))
  case isFalse =>
      have hentered : ({ y with current := next.normalize } : Syntax).Tidy :=
        Plain.tidy (y := { y with current := next.normalize })
          ⟨h.escapeChar, h.nesting, h.stringbuilding, h.qregspec,
            h.labelEmpty⟩ (fun heq => hlabel (normalize_label heq))
      unfold initial at henter
      split at henter
      case h_1 =>
          split at henter
          · cases henter
          · cases henter
            exact hentered
      case h_2 cmd hcmd =>
          cases henter
          have hne : next.normalize ≠ MainState.label := by
            rw [hcmd]
            simp
          refine ⟨fun _ => ⟨h.escapeChar, h.nesting⟩,
            fun _ => h.stringbuilding, ?_, fun _ => h.labelEmpty,
            fun heq => absurd heq hne⟩
          intro hqreg
          exact absurd hcmd (hqreg cmd)
      case h_3 hcmd =>
          cases henter
          have hne : next.normalize ≠ MainState.label := by
            rw [hcmd]
            simp
          refine ⟨?_, fun _ => h.stringbuilding, fun _ _ => h.qregspec,
            fun _ => h.labelEmpty, fun heq => absurd heq hne⟩
          intro hstring
          exact absurd hcmd (hstring _)
      case h_4 =>
          cases henter
          exact hentered

/-!
## Commands
-/

/-- What a state outside of arguments leaves behind. -/
def Leaves (y : Syntax) (step : Option (MainState × Syntax)) : Prop :=
  forall n z, step = some (n, z) -> (y.Plain -> z.Plain) ∧
    (n = MainState.label -> z.modifierAt = false)

theorem leaves_start (z : Syntax) (h : y.Plain -> z.Plain) :
    Leaves y (some (MainState.start, z)) := by
  intro n z' heq
  cases heq
  exact ⟨h, fun hlabel => by cases hlabel⟩

theorem leaves_same (n : MainState) (hlabel : n ≠ MainState.label) :
    Leaves y (some (n, y)) := by
  intro n' z heq
  cases heq
  exact ⟨id, fun h => absurd h hlabel⟩

theorem leaves_ite {c : Prop} [Decidable c]
    {first second : Option (MainState × Syntax)} (h : Leaves y first)
    (h' : Leaves y second) : Leaves y (if c then first else second) := by
  split
  · exact h
  · exact h'

theorem leaves_none : Leaves y none := by
  intro n z heq
  cases heq

/-- A label does not accept an `@`. -/
def RejectsAt (transitions : Char -> Option Transition) : Prop :=
  forall c entry, transitions c = some entry ->
    entry.next = MainState.label -> entry.modifierAt = false

theorem leaves_transition {transitions : Char -> Option Transition}
    (htable : RejectsAt transitions) :
    Leaves y (y.keep (y.transition transitions chr)) := by
  intro n z heq
  rcases Option.map_eq_some_iff.mp heq with ⟨n', hn, hpair⟩
  cases hpair
  refine ⟨id, ?_⟩
  intro hlabel
  unfold transition at hn
  split at hn
  · cases hn
  case h_2 entry hentry =>
      split at hn
      · cases hn
      case isFalse hmodifier =>
          cases hn
          rcases Option.bind_eq_some_iff.mp hentry with ⟨c, _, hc⟩
          have hrejects := htable c entry hc hlabel
          by_contra hat
          exact hmodifier ⟨Bool.not_eq_false _ ▸ hat, hrejects⟩

theorem rejectsAt_start : RejectsAt startTransitions := by
  intro c entry hentry hlabel
  unfold startTransitions at hentry
  split at hentry <;>
    first
    | (cases hentry; rfl)
    | (cases hentry; cases hlabel)
    | cases hentry

theorem rejectsAt_control : RejectsAt controlTransitions := by
  intro c entry hentry hlabel
  unfold controlTransitions at hentry
  split at hentry <;>
    first
    | (cases hentry; cases hlabel)
    | cases hentry

theorem rejectsAt_fcommand : RejectsAt fcommandTransitions := by
  intro c entry hentry hlabel
  unfold fcommandTransitions at hentry
  split at hentry <;>
    first
    | (cases hentry; cases hlabel)
    | cases hentry

theorem rejectsAt_ecommand : RejectsAt ecommandTransitions := by
  intro c entry hentry hlabel
  unfold ecommandTransitions at hentry
  split at hentry <;>
    first
    | (cases hentry; cases hlabel)
    | cases hentry

theorem leaves_unmodified : Leaves y y.unmodified :=
  leaves_ite leaves_none (leaves_start y id)

theorem leaves_startInput : Leaves y (y.startInput env chr) := by
  have hat (modifierAt : Bool) :
      Leaves y (some (MainState.start, { y with modifierAt := modifierAt })) :=
    leaves_start _ (fun h => ⟨h.escapeChar, h.nesting, h.stringbuilding,
      h.qregspec, h.labelEmpty⟩)
  have htable : Leaves y (y.keep (y.startTransition chr)) :=
    leaves_transition rejectsAt_start
  unfold startInput
  apply leaves_ite leaves_unmodified
  apply leaves_ite leaves_unmodified
  split
  · exact leaves_ite (leaves_same _ (by simp)) htable
  · exact leaves_unmodified
  · exact leaves_unmodified
  · exact leaves_unmodified
  · exact leaves_unmodified
  · exact hat false
  · exact hat false
  · exact hat false
  · exact hat false
  · exact hat false
  · exact hat false
  · exact hat false
  · exact hat false
  · exact leaves_ite leaves_none (hat true)
  · exact leaves_start y id
  · exact leaves_ite (leaves_transition rejectsAt_control) htable

theorem leaves_ctlcControlInput :
    Leaves y (y.keep (y.ctlcControlInput chr)) := by
  unfold ctlcControlInput
  split
  · exact leaves_start y id
  · exact leaves_transition rejectsAt_control

/-- All states which read no argument. -/
theorem leaves_input (hcurrent : y.current.readsArgument = false) :
    Leaves y (y.input toUpper env chr) := by
  unfold input
  cases hstate : y.current with
  | start => exact leaves_startInput
  | fcommand => exact leaves_transition rejectsAt_fcommand
  | condcommand => exact leaves_ite (leaves_start y id) leaves_none
  | control => exact leaves_transition rejectsAt_control
  | ascii => exact leaves_start y id
  | escape => exact leaves_ite (leaves_start y id) leaves_startInput
  | ctlc =>
      apply leaves_ite (leaves_start y id)
      exact leaves_ite (leaves_same _ (by simp)) leaves_startInput
  | ctlcControl => exact leaves_ctlcControlInput
  | ecommand => exact leaves_transition rejectsAt_ecommand
  | blockcomment =>
      apply leaves_same
      unfold blockcommentInput
      split <;> simp
  | blockcommentStar =>
      apply leaves_same
      unfold blockcommentStarInput
      split <;> simp
  | eolcomment =>
      apply leaves_same
      unfold eolcommentInput
      split <;> simp
  | printDecimal =>
      exact leaves_ite (leaves_same _ (by simp)) leaves_startInput
  | printOctal => exact leaves_ite (leaves_start y id) leaves_startInput
  | label =>
      rw [hstate] at hcurrent
      cases hcurrent
  | expectqreg cmd =>
      rw [hstate] at hcurrent
      cases hcurrent
  | expectstring cmd =>
      rw [hstate] at hcurrent
      cases hcurrent

/-!
## Arguments
-/

/-- A state goes on reading its argument. -/
theorem enter_same {n : MainState} (henter : y.enter env n = some z)
    (h : n.normalize = y.current) : z = y := by
  unfold enter at henter
  rw [if_pos h] at henter
  cases henter
  rfl

/-- A label or a comment. -/
theorem tidy_labelInput (h : y.Tidy) (hcurrent : y.current = MainState.label)
    (henter : (y.labelInput chr).2.enter env (y.labelInput chr).1 = some z) :
    z.Tidy := by
  have hstring (cmd : StringCommand) :
      y.current ≠ MainState.expectstring cmd := by
    rw [hcurrent]
    simp
  have hqreg : y.qregspec = none := by
    apply h.qregspec
    · rw [hcurrent]
      simp
    · exact fun cmd _ => hstring cmd
  have hplain (hempty : y.labelEmpty = true) : y.Plain :=
    ⟨(h.string hstring).1, (h.string hstring).2,
      h.building (fun cmd _ => hstring cmd), hqreg, hempty⟩
  unfold labelInput at henter
  split at henter
  case isTrue hblock =>
      exact tidy_enter (hplain hblock.1) (fun hlabel => by cases hlabel)
        henter
  case isFalse =>
      split at henter
      case isTrue heol =>
          exact tidy_enter (hplain heol.1) (fun hlabel => by cases hlabel)
            henter
      case isFalse =>
          split at henter
          case isTrue =>
              apply tidy_enter _ (fun hlabel => by cases hlabel) henter
              exact ⟨(h.string hstring).1, (h.string hstring).2,
                h.building (fun cmd _ => hstring cmd), hqreg, rfl⟩
          case isFalse =>
              rw [enter_same henter hcurrent.symm]
              exact ⟨fun _ => h.string hstring,
                fun _ => h.building (fun cmd _ => hstring cmd),
                fun _ _ => hqreg, fun hne => absurd hcurrent hne,
                h.modifierAt⟩

/-- What a state for a string argument starts from. -/
structure Opened (y : Syntax) (next : MainState) : Prop where
  escapeChar : y.escapeChar = 0x1B ∨
    exists cmd, next = MainState.expectstring cmd
  nesting : y.nesting = 1
  stringbuilding : y.stringbuilding = SBSyntax.fresh
  qregspec : y.qregspec = none ∨
    exists cmd, cmd.hasQReg = true ∧ next = MainState.expectstring cmd
  labelEmpty : y.labelEmpty = true

/-- An argument is followed by the next command or by a string argument. -/
theorem tidy_opened (h : y.Opened next)
    (hnext : next = MainState.start ∨
      exists cmd, next = MainState.expectstring cmd)
    (henter : y.enter env next = some z) : z.Tidy := by
  have htidy (current : MainState) (hcurrent : current = next.normalize)
      (escapeChar : Gunichar)
      (hescape : escapeChar = y.escapeChar ∨
        exists cmd, next = MainState.expectstring cmd) :
      ({ y with current := current, escapeChar := escapeChar } :
        Syntax).Tidy := by
    have hlabel : current ≠ MainState.label := by
      rw [hcurrent]
      rcases hnext with rfl | ⟨cmd, rfl⟩
      · simp [MainState.normalize]
      · rw [normalize_expectstring]
        simp
    refine ⟨?_, fun _ => h.stringbuilding, ?_, fun _ => h.labelEmpty,
      fun heq => absurd heq hlabel⟩
    · intro hstring
      refine ⟨?_, h.nesting⟩
      have hno : ¬ exists cmd, next = MainState.expectstring cmd := by
        rintro ⟨cmd, rfl⟩
        rw [normalize_expectstring] at hcurrent
        exact hstring _ hcurrent
      rcases hescape with heq | hyes
      · rcases h.escapeChar with hyes | hyes
        · exact heq.trans hyes
        · exact absurd hyes hno
      · exact absurd hyes hno
    · intro _ hstring
      rcases h.qregspec with hnone | ⟨cmd, hhas, hcmd⟩
      · exact hnone
      · rw [hcmd, normalize_expectstring] at hcurrent
        apply absurd hcurrent (hstring cmd.normalize _)
        cases cmd <;> first | rfl | cases hhas
  unfold enter at henter
  split at henter
  case isTrue hsame =>
      cases henter
      have heq := htidy y.current hsame.symm y.escapeChar (Or.inl rfl)
      exact heq
  case isFalse =>
      unfold initial at henter
      split at henter
      case h_1 hctlc =>
          rcases hnext with rfl | ⟨cmd, rfl⟩
          · cases hctlc
          · rw [normalize_expectstring] at hctlc
            cases hctlc
      case h_2 hqreg =>
          rcases hnext with rfl | ⟨cmd, rfl⟩
          · cases hqreg
          · rw [normalize_expectstring] at hqreg
            cases hqreg
      case h_3 hprint =>
          cases henter
          apply htidy _ rfl
          right
          rcases hnext with heq | hstring
          · rw [heq] at hprint
            cases hprint
          · exact hstring
      case h_4 =>
          cases henter
          exact htidy _ rfl y.escapeChar (Or.inl rfl)

/-- A Q-Register argument. -/
theorem tidy_expectqregInput {cmd : QRegCommand} {n : MainState} (h : y.Tidy)
    (hcurrent : y.current = MainState.expectqreg cmd)
    (hinput : y.expectqregInput cmd chr = some (n, w))
    (henter : w.enter env n = some z) : z.Tidy := by
  have hstring (cmd' : StringCommand) :
      y.current ≠ MainState.expectstring cmd' := by
    rw [hcurrent]
    simp
  have hlabel : y.current ≠ MainState.label := by
    rw [hcurrent]
    simp
  have hbuilding := h.building (fun cmd _ => hstring cmd)
  unfold expectqregInput at hinput
  split at hinput
  · cases hinput
  case h_2 spec _ =>
      split at hinput
      · cases hinput
      case h_2 state nesting inner _ =>
          dsimp only at hinput
          split at hinput
          case isTrue =>
              cases hinput
              apply tidy_opened _ _ henter
              · cases cmd with
                | eqcommand =>
                    exact ⟨Or.inl (h.string hstring).1, (h.string hstring).2,
                      hbuilding, Or.inr ⟨.loadqreg, rfl, rfl⟩,
                      h.label hlabel⟩
                | epctcommand =>
                    exact ⟨Or.inl (h.string hstring).1, (h.string hstring).2,
                      hbuilding, Or.inr ⟨.saveqreg, rfl, rfl⟩,
                      h.label hlabel⟩
                | ctlucommand =>
                    exact ⟨Or.inl (h.string hstring).1, (h.string hstring).2,
                      hbuilding, Or.inr ⟨.setqregstringNobuilding, rfl, rfl⟩,
                      h.label hlabel⟩
                | eucommand =>
                    exact ⟨Or.inl (h.string hstring).1, (h.string hstring).2,
                      hbuilding, Or.inr ⟨.setqregstringBuilding, rfl, rfl⟩,
                      h.label hlabel⟩
                | _ =>
                    exact ⟨Or.inl (h.string hstring).1, (h.string hstring).2,
                      hbuilding, Or.inl rfl, h.label hlabel⟩
              · cases cmd with
                | eqcommand => exact Or.inr ⟨_, rfl⟩
                | epctcommand => exact Or.inr ⟨_, rfl⟩
                | ctlucommand => exact Or.inr ⟨_, rfl⟩
                | eucommand => exact Or.inr ⟨_, rfl⟩
                | egcommand => exact Or.inr ⟨_, rfl⟩
                | _ => exact Or.inl rfl
          case isFalse =>
              cases hinput
              rw [enter_same henter hcurrent.symm]
              refine ⟨fun _ => h.string hstring, fun _ => hbuilding, ?_,
                fun _ => h.label hlabel, fun heq => absurd heq hlabel⟩
              intro hqreg
              exact absurd hcurrent (hqreg cmd)

/-- Within a string argument. -/
theorem tidy_string {cmd : StringCommand}
    (hcurrent : y.current = MainState.expectstring cmd)
    (hbuilding : cmd.stringBuilding = false ->
      y.stringbuilding = SBSyntax.fresh)
    (hqreg : cmd.hasQReg = false -> y.qregspec = none)
    (hlabel : y.labelEmpty = true) : y.Tidy := by
  have hne : y.current ≠ MainState.label := by
    rw [hcurrent]
    simp
  refine ⟨?_, ?_, ?_, fun _ => hlabel, fun heq => absurd heq hne⟩
  · intro hstring
    exact absurd hcurrent (hstring cmd)
  · intro hno
    apply hbuilding
    cases hbuilds : cmd.stringBuilding with
    | false => rfl
    | true => exact absurd hcurrent (hno cmd hbuilds)
  · intro _ hno
    apply hqreg
    cases hhas : cmd.hasQReg with
    | false => rfl
    | true => exact absurd hcurrent (hno cmd hhas)

/-- The string argument goes on. -/
theorem tidy_reenter {cmd : StringCommand}
    (hcurrent : y.current = MainState.expectstring cmd)
    (hbuilding : cmd.stringBuilding = false ->
      y.stringbuilding = SBSyntax.fresh)
    (hqreg : cmd.hasQReg = false -> y.qregspec = none)
    (hlabel : y.labelEmpty = true)
    (henter : y.enter env (MainState.expectstring cmd) = some z) :
    z.Tidy := by
  have hbuilds : cmd.normalize.stringBuilding = cmd.stringBuilding := by
    cases cmd <;> rfl
  have hhas : cmd.normalize.hasQReg = cmd.hasQReg := by
    cases cmd <;> rfl
  have hcurrent' := enter_current henter
  rw [normalize_expectstring] at hcurrent'
  have hsame : z.stringbuilding = y.stringbuilding ∧
      z.qregspec = y.qregspec ∧ z.labelEmpty = y.labelEmpty := by
    unfold enter at henter
    split at henter
    · cases henter
      exact ⟨rfl, rfl, rfl⟩
    · unfold initial at henter
      split at henter
      · split at henter
        · cases henter
        · cases henter
          exact ⟨rfl, rfl, rfl⟩
      case h_2 hqreg =>
          rw [normalize_expectstring] at hqreg
          cases hqreg
      · cases henter
        exact ⟨rfl, rfl, rfl⟩
      · cases henter
        exact ⟨rfl, rfl, rfl⟩
  rcases hsame with ⟨hsb, hspec, hempty⟩
  apply tidy_string hcurrent'
  · rw [hbuilds, hsb]
    exact hbuilding
  · rw [hhas, hspec]
    exact hqreg
  · exact hempty.trans hlabel

theorem afterString_last {cmd : StringCommand} (h : cmd.last = false) :
    exists cmd', afterString cmd = MainState.expectstring cmd' := by
  cases cmd <;> first | exact ⟨_, rfl⟩ | cases h

theorem afterString_cases (cmd : StringCommand) :
    afterString cmd = MainState.start ∨
      exists cmd', afterString cmd = MainState.expectstring cmd' := by
  cases cmd <;> first | exact Or.inl rfl | exact Or.inr ⟨_, rfl⟩

/-- The end of a string argument. -/
theorem tidy_finishString {cmd : StringCommand} {n : MainState}
    (hbuilding : cmd.stringBuilding = false ->
      y.stringbuilding = SBSyntax.fresh)
    (hqreg : cmd.hasQReg = false -> y.qregspec = none)
    (hlabel : y.labelEmpty = true)
    (hfinish : y.finishString cmd = some (n, w))
    (henter : w.enter env n = some z) : z.Tidy := by
  unfold finishString at hfinish
  split at hfinish
  · cases hfinish
  · cases hfinish
    apply tidy_opened _ (afterString_cases cmd) henter
    constructor
    · cases hlast : cmd.last with
      | true => exact Or.inl rfl
      | false => exact Or.inr (afterString_last hlast)
    · rfl
    · cases hbuilds : cmd.stringBuilding with
      | true => rfl
      | false => exact hbuilding hbuilds
    · cases hhas : cmd.hasQReg with
      | true => exact Or.inl rfl
      | false => exact Or.inl (hqreg hhas)
    · exact hlabel

/-- A string argument. -/
theorem tidy_expectstringInput {cmd : StringCommand} {n : MainState}
    (h : y.Tidy) (hcurrent : y.current = MainState.expectstring cmd)
    (hinput : y.expectstringInput toUpper cmd chr = some (n, w))
    (henter : w.enter env n = some z) : z.Tidy := by
  have hbuilding : cmd.stringBuilding = false ->
      y.stringbuilding = SBSyntax.fresh := by
    intro hno
    apply h.building
    intro cmd' hbuilds heq
    rw [hcurrent] at heq
    cases heq
    rw [hno] at hbuilds
    cases hbuilds
  have hqreg : cmd.hasQReg = false -> y.qregspec = none := by
    intro hno
    apply h.qregspec
    · intro cmd' heq
      rw [hcurrent] at heq
      cases heq
    · intro cmd' hhas heq
      rw [hcurrent] at heq
      cases heq
      rw [hno] at hhas
      cases hhas
  have hlabel : y.labelEmpty = true := by
    apply h.label
    rw [hcurrent]
    simp
  unfold expectstringInput at hinput
  split at hinput
  · cases hinput
    exact tidy_reenter hcurrent hbuilding hqreg hlabel henter
  · split at hinput
    · cases hinput
      apply tidy_reenter _ _ _ _ henter
      · exact hcurrent
      · exact hbuilding
      · exact hqreg
      · exact hlabel
    · dsimp only at hinput
      split at hinput
      · exact tidy_finishString (y := { y with nesting := _ }) hbuilding
          hqreg hlabel hinput henter
      · split at hinput
        case isTrue hbuilds =>
            rcases Option.map_eq_some_iff.mp hinput with ⟨inner, _, hpair⟩
            cases hpair
            apply tidy_reenter _ _ _ _ henter
            · exact hcurrent
            · intro hno
              rw [hno] at hbuilds
              cases hbuilds
            · exact hqreg
            · exact hlabel
        case isFalse =>
            cases hinput
            apply tidy_reenter _ _ _ _ henter
            · exact hcurrent
            · exact hbuilding
            · exact hqreg
            · exact hlabel

/-- Every character leaves a tidy state behind. -/
theorem tidy_step (h : y.Tidy) (hstep : y.step toUpper env chr = some z) :
    z.Tidy := by
  rcases Option.bind_eq_some_iff.mp hstep with ⟨⟨n, w⟩, hinput, henter⟩
  cases hreads : y.current.readsArgument with
  | false =>
      rcases leaves_input hreads n w hinput with ⟨hplain, hlabel⟩
      exact tidy_enter (hplain (h.plain hreads)) hlabel henter
  | true =>
      unfold input at hinput
      cases hcurrent : y.current with
      | label =>
          rw [hcurrent] at hinput
          have heq : y.labelInput chr = (n, w) := Option.some.inj hinput
          have henter' : (y.labelInput chr).2.enter env
              (y.labelInput chr).1 = some z := by
            rw [heq]
            exact henter
          exact tidy_labelInput h hcurrent henter'
      | expectqreg cmd =>
          rw [hcurrent] at hinput
          exact tidy_expectqregInput h hcurrent hinput henter
      | expectstring cmd =>
          rw [hcurrent] at hinput
          exact tidy_expectstringInput h hcurrent hinput henter
      | _ =>
          rw [hcurrent] at hreads
          cases hreads

/-- The beginning of a state that has no initial callback. -/
theorem enter_start (henter : y.enter env MainState.start = some z) :
    z = { y with current := MainState.start } := by
  unfold enter at henter
  split at henter
  case isTrue hsame =>
      cases henter
      cases y
      dsimp only at hsame
      rw [<- hsame]
      rfl
  case isFalse =>
      cases henter
      rfl

/-- Behind a label a machine is as good as new. -/
theorem fresh_behind_label (h : y.Tidy) (hcurrent : y.current = MainState.label)
    (hempty : y.labelEmpty = false)
    (hstep : y.step toUpper env '!'.toNat = some z) : z = Syntax.fresh := by
  have htidy := tidy_step h hstep
  rcases Option.bind_eq_some_iff.mp hstep with ⟨⟨n, w⟩, hinput, henter⟩
  unfold input at hinput
  rw [hcurrent] at hinput
  dsimp only at hinput
  unfold labelInput at hinput
  rw [hempty, if_neg (by simp), if_neg (by simp), if_pos rfl] at hinput
  cases hinput
  have heq := enter_start henter
  apply htidy.fresh
  · rw [heq]
  · rw [heq]
    exact h.modifierAt hcurrent

/-- Behind the labels of `O`, too. -/
theorem fresh_behind_goto (h : y.Tidy)
    (hcurrent : y.current = MainState.expectstring StringCommand.goto)
    (hstep : y.step toUpper env chr = some z)
    (hstart : z.current = MainState.start) : z = Syntax.fresh := by
  have htidy := tidy_step h hstep
  rcases Option.bind_eq_some_iff.mp hstep with ⟨⟨n, w⟩, hinput, henter⟩
  have hstays (w : Syntax)
      (henter : w.enter env (MainState.expectstring StringCommand.goto) =
        some z) (hw : w.current = y.current) : False := by
    have hsame : z = w :=
      enter_same henter (hcurrent.symm.trans hw.symm)
    rw [hsame, hw, hcurrent] at hstart
    cases hstart
  unfold input at hinput
  rw [hcurrent] at hinput
  dsimp only at hinput
  unfold expectstringInput at hinput
  split at hinput
  case isTrue =>
      cases hinput
      exact (hstays _ henter rfl).elim
  case isFalse =>
      split at hinput
      case isTrue =>
          cases hinput
          exact (hstays _ henter rfl).elim
      case isFalse hat =>
          dsimp only at hinput
          split at hinput
          case isTrue =>
              cases hinput
              apply htidy.fresh hstart
              rw [enter_start henter]
              exact Bool.not_eq_true _ ▸ hat
          case isFalse =>
              rcases Option.map_eq_some_iff.mp hinput with ⟨inner, _, heq⟩
              cases heq
              exact (hstays _ henter rfl).elim

end Syntax

end Parser
end SciTECO
