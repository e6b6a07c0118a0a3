import SciTECO.Parser.Frame

/-!
# Syntax of commands

The main machine reads characters as its syntactic state does, in normal mode
and in the parse-only modes.
-/

namespace SciTECO
namespace Parser

open Undoable
open QReg (Table)

variable {W Reg : Type} {host : Host W Reg} {env : Env}

/-- The syntactic state of the machine. -/
def State.toSyntax (s : State W Reg) : Syntax := s.machine.toSyntax

/-- The string building machines are well-formed. -/
def State.WellFormed (s : State W Reg) : Prop :=
  s.machine.expectstring.machine.WellFormed ∧
    forall spec, s.machine.expectqreg = some spec ->
      spec.stringbuilding.WellFormed

theorem toSyntax_of_machine {s t : State W Reg}
    (h : t.machine.fixed = s.machine.fixed) : t.toSyntax = s.toSyntax := by
  have hshape := congrArg Machine.toSyntax h
  exact hshape

theorem wellFormed_of_machine {s t : State W Reg} (hwf : s.WellFormed)
    (h : t.machine.fixed = s.machine.fixed) : t.WellFormed := by
  have hstring := congrArg (fun m => m.expectstring.machine) h
  have hqreg := congrArg (fun m => m.expectqreg) h
  simp only [Machine.fixed] at hstring hqreg
  constructor
  · rw [hstring]
    exact hwf.1
  · rw [hqreg]
    exact hwf.2

theorem toSyntax_of_fixed {s t : State W Reg} (h : t.fixed = s.fixed) :
    t.toSyntax = s.toSyntax :=
  toSyntax_of_machine (congrArg Prod.fst h)

theorem wellFormed_of_fixed {s t : State W Reg} (hwf : s.WellFormed)
    (h : t.fixed = s.fixed) : t.WellFormed :=
  wellFormed_of_machine hwf (congrArg Prod.fst h)

/-!
## Reading a character
-/

/-- A state has read a character: its syntax allows it, and `next` is the state
to enter.  Parse-only mode is left for the start state only, and in it a
`quiet` character leaves the editor alone. -/
def Reads (step : Option (MainState × Syntax)) (quiet : Prop)
    (s : State W Reg) (next : MainState) (t : State W Reg) : Prop :=
  t.WellFormed ∧
    (exists n, step = some (n, t.toSyntax) ∧ n.normalize = next.normalize) ∧
    (s.mode ≠ Mode.normal ->
      t.machine.macroPc = s.machine.macroPc ∧
        (t.mode ≠ Mode.normal ∨ next = MainState.start) ∧
        (quiet ->
          t.machine.expectstring.insertLen =
              s.machine.expectstring.insertLen ∧
            t.editor = s.editor))

/-- In parse-only mode only syntax errors are raised. -/
def Rejects (step : Option (MainState × Syntax)) (quiet : Prop)
    (s t : State W Reg) : Prop :=
  s.mode ≠ Mode.normal -> step = none ∧ (quiet -> t.editor = s.editor)

/-- Crashes too. -/
def Crashes (step : Option (MainState × Syntax)) (s : State W Reg) : Prop :=
  s.mode ≠ Mode.normal -> step = none

section Reading

variable {step : Option (MainState × Syntax)} {quiet : Prop}
variable {s : State W Reg}

theorem reads_same {n next : MainState} (hwf : s.WellFormed)
    (hstep : step = some (n, s.toSyntax))
    (hnext : n.normalize = next.normalize) : Reads step quiet s next s :=
  ⟨hwf, ⟨n, hstep, hnext⟩,
    fun hmode => ⟨rfl, Or.inl hmode, fun _ => ⟨rfl, rfl⟩⟩⟩

/-- A command in normal mode. -/
theorem reads_of_fixed {n next : MainState} {t : State W Reg}
    (hwf : s.WellFormed) (hmode : s.mode = Mode.normal)
    (h : t.fixed = s.fixed) (hstep : step = some (n, s.toSyntax))
    (hnext : n.normalize = next.normalize) : Reads step quiet s next t := by
  refine ⟨wellFormed_of_fixed hwf h, ⟨n, ?_, hnext⟩, ?_⟩
  · rw [toSyntax_of_fixed h]
    exact hstep
  · intro h
    exact absurd hmode h

/-- A command in normal mode may fail for any reason. -/
theorem wp_command {α : Type} {m : Exec (State W Reg) α}
    {post : α -> State W Reg -> Prop} (hm : Keeps State.fixed m)
    (hmode : s.mode = Mode.normal)
    (hpost : forall a t, t.fixed = s.fixed -> post a t) :
    wp m post (fun _ t => Rejects step quiet s t)
      (fun _ => Crashes step s) s := by
  apply hm.wp hpost
  · intro _ _ h
    exact absurd hmode h
  · intro _ h
    exact absurd hmode h

/-- Continue after a command in normal mode. -/
theorem wp_after {m : Exec (State W Reg) MainState} {t : State W Reg}
    (hmode : s.mode = Mode.normal)
    (hm : wp m (fun next u => Reads step quiet t next u)
      (fun _ u => Rejects step quiet t u) (fun _ => Crashes step t) t) :
    wp m (fun next u => Reads step quiet s next u)
      (fun _ u => Rejects step quiet s u) (fun _ => Crashes step s) t := by
  apply wp_mono hm
  · intro next u hu
    exact ⟨hu.1, hu.2.1, fun h => absurd hmode h⟩
  · intro _ _ _ h
    exact absurd hmode h
  · intro _ _ h
    exact absurd hmode h

end Reading

/-!
## Commands without a transition
-/

section Commands

variable {s : State W Reg}

/-- The flow control commands of skipped code change the mode and the nesting
only. -/
def FlowOnly (s t : State W Reg) : Prop :=
  t =
    { s with
      machine :=
        { s.machine with
          flags := { s.machine.flags with mode := t.machine.flags.mode }
          nestLevel := t.machine.nestLevel } }

theorem reads_flow {step : Option (MainState × Syntax)} {quiet : Prop}
    {t : State W Reg} (hwf : s.WellFormed) (h : FlowOnly s t)
    (hstep : step = some (MainState.start, s.toSyntax)) :
    Reads step quiet s MainState.start t := by
  rw [FlowOnly] at h
  rw [h]
  exact ⟨hwf, ⟨_, hstep, rfl⟩,
    fun _ => ⟨rfl, Or.inr rfl, fun _ => ⟨rfl, rfl⟩⟩⟩

@[simp] theorem wp_undoFlags {post : Unit -> State W Reg -> Prop}
    {fail : TecoError -> State W Reg -> Prop} {bad : Fault -> Prop} :
    wp (undoFlags env) post fail bad s <-> post () s := by
  simp [undoFlags]

@[simp] theorem wp_setMode (mode : Mode)
    {post : Unit -> State W Reg -> Prop}
    {fail : TecoError -> State W Reg -> Prop} {bad : Fault -> Prop} :
    wp (setMode env mode) post fail bad s <->
      post () (s.mapFlags (fun f => { f with mode := mode })) := by
  simp [setMode]

@[simp] theorem wp_addNestLevel (change : Int)
    {post : Unit -> State W Reg -> Prop}
    {fail : TecoError -> State W Reg -> Prop} {bad : Fault -> Prop} :
    wp (addNestLevel env change) post fail bad s <->
      post () (s.mapMachine (fun m =>
        { m with nestLevel := m.nestLevel + change })) := by
  simp [addNestLevel]

@[simp] theorem wp_getMode {post : Mode -> State W Reg -> Prop}
    {fail : TecoError -> State W Reg -> Prop} {bad : Fault -> Prop} :
    wp getMode post fail bad s <-> post s.mode s := by
  simp [getMode]

/-- A command without modifiers. -/
theorem wp_unmodified (chr : Gunichar) {action : Exec (State W Reg) Unit}
    (haction : s.machine.flags.modifierAt = false ->
      wp action
        (fun _ t => Reads (some (MainState.start, s.toSyntax)) True s
          MainState.start t)
        (fun _ t => Rejects (some (MainState.start, s.toSyntax)) True s t)
        (fun _ => Crashes (some (MainState.start, s.toSyntax)) s) s) :
    wp (unmodified chr action)
      (fun next t => Reads s.toSyntax.unmodified True s next t)
      (fun _ t => Rejects s.toSyntax.unmodified True s t)
      (fun _ => Crashes s.toSyntax.unmodified s) s := by
  unfold unmodified
  rw [wp_bind, wp_get, wp_ite]
  cases hat : s.machine.flags.modifierAt with
  | true =>
      have hnone : s.toSyntax.unmodified = none := by
        rw [Syntax.unmodified, if_pos (show s.toSyntax.modifierAt = true
          from hat)]
      rw [if_pos (by simp [unexpectedModifier, hat]), wp_throw, hnone]
      intro _
      exact ⟨rfl, fun _ => rfl⟩
  | false =>
      have hsome : s.toSyntax.unmodified =
          some (MainState.start, s.toSyntax) := by
        rw [Syntax.unmodified, if_neg (show ¬s.toSyntax.modifierAt = true by
          simp [State.toSyntax, Machine.toSyntax, hat])]
      rw [hsome]
      split
      case isTrue hmodifier =>
          intro hmode
          simp [unexpectedModifier, hat] at hmodifier
          exact absurd hmodifier.1 hmode
      case isFalse =>
          rw [wp_bind]
          apply wp_call (haction hat)
          intro _ t ht
          rw [wp_pure]
          exact ht

theorem wp_digit (chr : Gunichar) (hwf : s.WellFormed) :
    wp (digit host env chr)
      (fun _ t => Reads (some (MainState.start, s.toSyntax)) True s
        MainState.start t)
      (fun _ t => Rejects (some (MainState.start, s.toSyntax)) True s t)
      (fun _ => Crashes (some (MainState.start, s.toSyntax)) s) s := by
  unfold digit
  rw [wp_bind, wp_get, wp_ite]
  split
  case isTrue hmode =>
      apply wp_command (keeps_onExpr _) hmode
      intro _ t ht
      exact reads_of_fixed hwf hmode ht rfl rfl
  case isFalse =>
      exact reads_same hwf rfl rfl

theorem wp_condElse (hwf : s.WellFormed) :
    wp (condElse env)
      (fun _ t => Reads (some (MainState.start, s.toSyntax)) True s
        MainState.start t)
      (fun _ t => Rejects (some (MainState.start, s.toSyntax)) True s t)
      (fun _ => Crashes (some (MainState.start, s.toSyntax)) s) s := by
  unfold condElse
  simp only [wp_bind, wp_get, wp_undoFlags, wp_ite, wp_modify, wp_pure]
  split
  · exact reads_flow hwf rfl rfl
  · split
    · exact reads_flow hwf rfl rfl
    · exact reads_same hwf rfl rfl

theorem wp_condEnd (hwf : s.WellFormed) :
    wp (condEnd env)
      (fun _ t => Reads (some (MainState.start, s.toSyntax)) True s
        MainState.start t)
      (fun _ t => Rejects (some (MainState.start, s.toSyntax)) True s t)
      (fun _ => Crashes (some (MainState.start, s.toSyntax)) s) s := by
  unfold condEnd
  simp only [wp_bind, wp_get, wp_setMode, wp_addNestLevel, wp_ite, wp_pure]
  split
  · split
    · exact reads_flow hwf rfl rfl
    · exact reads_flow hwf rfl rfl
  · exact reads_same hwf rfl rfl

theorem wp_skipLoopOpen {step : Option (MainState × Syntax)}
    (hwf : s.WellFormed) (hstep : step = some (MainState.start, s.toSyntax)) :
    wp (skipLoopOpen env) (fun next t => Reads step True s next t)
      (fun _ t => Rejects step True s t) (fun _ => Crashes step s) s := by
  unfold skipLoopOpen
  simp only [wp_bind, wp_addNestLevel, wp_pure]
  exact reads_flow hwf rfl hstep

theorem wp_skipLoopClose {step : Option (MainState × Syntax)}
    (hwf : s.WellFormed) (hstep : step = some (MainState.start, s.toSyntax)) :
    wp (skipLoopClose env) (fun next t => Reads step True s next t)
      (fun _ t => Rejects step True s t) (fun _ => Crashes step s) s := by
  unfold skipLoopClose
  simp only [wp_bind, wp_get, wp_ite, wp_setMode, wp_addNestLevel, wp_pure]
  split
  · exact reads_flow hwf rfl hstep
  · exact reads_flow hwf rfl hstep

/-- The modifier `@` is taken off or put on. -/
theorem reads_modifierAt {step : Option (MainState × Syntax)} {quiet : Prop}
    {n next : MainState} {at_ : Bool} {t : State W Reg} (hwf : s.WellFormed)
    (h : t = s.mapFlags (fun f => { f with modifierAt := at_ }))
    (hstep : step = some (n, { s.toSyntax with modifierAt := at_ }))
    (hnext : n.normalize = next.normalize) : Reads step quiet s next t := by
  rw [h]
  exact ⟨hwf, ⟨n, hstep, hnext⟩,
    fun hmode => ⟨rfl, Or.inl hmode, fun _ => ⟨rfl, rfl⟩⟩⟩

@[simp] theorem wp_evalAt {post : Bool -> State W Reg -> Prop}
    {fail : TecoError -> State W Reg -> Prop} {bad : Fault -> Prop} :
    wp (evalAt env) post fail bad s <->
      post s.machine.flags.modifierAt
        (s.mapFlags (fun f => { f with modifierAt := false })) := by
  unfold evalAt
  simp only [wp_bind, wp_get, wp_ite, wp_undoFlags, wp_modify, wp_pure]
  cases hat : s.machine.flags.modifierAt with
  | true => simp
  | false =>
      have hsame : s.mapFlags (fun f => { f with modifierAt := false }) = s := by
        simp only [State.mapFlags, <- hat]
      rw [hsame]
      simp

theorem wp_wordCommand (cmd : Bool -> EditorCommand)
    {step : Option (MainState × Syntax)} (hwf : s.WellFormed)
    (hstep : step =
      some (MainState.start, { s.toSyntax with modifierAt := false })) :
    wp (wordCommand host env cmd) (fun next t => Reads step True s next t)
      (fun _ t => Rejects step True s t) (fun _ => Crashes step s) s := by
  unfold wordCommand
  simp only [wp_bind, wp_evalAt, wp_getMode, wp_ite]
  split
  case isTrue =>
      exact reads_modifierAt hwf rfl hstep rfl
  case isFalse hmode =>
      have hnormal : s.mode = Mode.normal := not_not.mp hmode
      have hwf' : (s.mapFlags (fun f =>
          { f with modifierAt := false })).WellFormed := hwf
      apply (keeps_onHost _).wp
      · intro _ t ht
        refine ⟨wellFormed_of_fixed hwf' ht, ⟨_, ?_, rfl⟩, ?_⟩
        · rw [toSyntax_of_fixed ht]
          exact hstep
        · intro h
          exact absurd hnormal h
      · intro _ _ h
        exact absurd hnormal h
      · intro _ h
        exact absurd hnormal h

theorem wp_atModifier (chr : Gunichar) {step : Option (MainState × Syntax)}
    (hwf : s.WellFormed)
    (hstep : step = if s.toSyntax.modifierAt then none
      else some (MainState.start, { s.toSyntax with modifierAt := true })) :
    wp (atModifier env chr) (fun next t => Reads step True s next t)
      (fun _ t => Rejects step True s t) (fun _ => Crashes step s) s := by
  unfold atModifier
  simp only [wp_bind, wp_get, wp_ite, wp_throw, wp_undoFlags, wp_modify,
    wp_pure]
  split
  case isTrue hat =>
      intro _
      rw [hstep, if_pos (show s.toSyntax.modifierAt = true from hat)]
      exact ⟨rfl, fun _ => rfl⟩
  case isFalse hat =>
      rw [if_neg (show ¬s.toSyntax.modifierAt = true from hat)] at hstep
      exact reads_modifierAt hwf rfl hstep rfl

theorem wp_colonModifier (chr : Gunichar)
    {step : Option (MainState × Syntax)} (hwf : s.WellFormed)
    (hstep : step = some (MainState.start, s.toSyntax)) :
    wp (colonModifier env chr) (fun next t => Reads step True s next t)
      (fun _ t => Rejects step True s t) (fun _ => Crashes step s) s := by
  unfold colonModifier
  simp only [wp_bind, wp_get, wp_ite, wp_throw, wp_undoFlags, wp_modify,
    wp_pure]
  split
  case isTrue =>
      exact reads_same hwf hstep rfl
  case isFalse hmode =>
      have hnormal : s.mode = Mode.normal := not_not.mp hmode
      split
      · intro h
        exact absurd hnormal h
      · exact reads_of_fixed hwf hnormal rfl hstep rfl

/-!
## Conditionals
-/

/-- Which conditionals there are does not depend on the value. -/
theorem condition_isSome (chr : Gunichar) (args : Nat) (value : TecoInt) :
    (condition host chr args value).isSome = Syntax.isCondition chr := by
  unfold condition Syntax.isCondition
  cases ascii (asciiToUpper chr) with
  | none => rfl
  | some c =>
      dsimp only
      split
      case h_20 =>
          simp only [Option.some.injEq] at *
          simp_all
      all_goals
        rename_i heq
        cases heq
        rfl

theorem wp_skippedCondition (chr : Gunichar) (hwf : s.WellFormed)
    {t : State W Reg} (ht : FlowOnly s t) :
    wp
      (match condition host chr 0 0 with
        | none => throw (invalidConditional chr)
        | some _ => pure MainState.start : Exec (State W Reg) MainState)
      (fun next t => Reads
        (if Syntax.isCondition chr then some (.start, s.toSyntax) else none)
        True s next t)
      (fun _ t => Rejects
        (if Syntax.isCondition chr then some (.start, s.toSyntax) else none)
        True s t)
      (fun _ => Crashes
        (if Syntax.isCondition chr then some (.start, s.toSyntax) else none)
        s) t := by
  have hsome : (condition host chr 0 0).isSome = _ :=
    condition_isSome chr 0 0
  split
  case h_1 heq =>
      rw [heq] at hsome
      rw [<- hsome]
      intro _
      rw [ht]
      exact ⟨rfl, fun _ => rfl⟩
  case h_2 heq =>
      rw [heq] at hsome
      rw [<- hsome]
      exact reads_flow hwf ht rfl

theorem wp_condcommandInput (chr : Gunichar) (hwf : s.WellFormed) :
    wp (condcommandInput host env chr)
      (fun next t => Reads
        (if Syntax.isCondition chr then some (.start, s.toSyntax) else none)
        True s next t)
      (fun _ t => Rejects
        (if Syntax.isCondition chr then some (.start, s.toSyntax) else none)
        True s t)
      (fun _ => Crashes
        (if Syntax.isCondition chr then some (.start, s.toSyntax) else none)
        s) s := by
  unfold condcommandInput
  rw [wp_bind, wp_get, wp_ite]
  split
  case isTrue hmode =>
      rw [wp_bind]
      apply wp_command (keeps_condValue chr) hmode
      intro value t ht
      rw [wp_bind, wp_get]
      have hsome : (condition host chr t.editor.expr.args value).isSome = _ :=
        condition_isSome chr t.editor.expr.args value
      split
      case h_1 =>
          intro h
          exact absurd hmode h
      case h_2 heq =>
          rw [heq] at hsome
          rw [<- hsome]
          exact reads_of_fixed hwf hmode ht rfl rfl
      case h_3 heq =>
          rw [heq] at hsome
          rw [<- hsome, wp_bind, wp_setMode]
          exact reads_of_fixed hwf hmode ht rfl rfl
  case isFalse hmode =>
      dsimp only
      by_cases hcond : s.mode = Mode.parseOnlyCond ∨
          s.mode = Mode.parseOnlyCondForce
      · rw [if_pos hcond, wp_bind, wp_addNestLevel]
        exact wp_skippedCondition chr hwf rfl
      · rw [if_neg hcond]
        exact wp_skippedCondition chr hwf rfl

/-!
## Returning
-/

/-- A return is an error of its own. -/
theorem wp_tecoReturn {post : Unit -> State W Reg -> Prop}
    {fail : TecoError -> State W Reg -> Prop} {bad : Fault -> Prop}
    (hfail : forall e t, fail e t) (hbad : forall c, bad c) :
    wp (tecoReturn host env) post fail bad s := by
  unfold tecoReturn
  rw [wp_bind, wp_get, wp_ite]
  split
  · exact hbad _
  · rw [wp_ite]
    split
    · exact hfail _ _
    · rw [wp_returnArguments]
      unfold wp
      split
      · exact hfail _ _
      · exact hfail _ _
      · exact hbad _

theorem wp_asciiInput (chr : Gunichar) (hwf : s.WellFormed) :
    wp (asciiInput chr)
      (fun next t => Reads (some (.start, s.toSyntax)) True s next t)
      (fun _ t => Rejects (some (.start, s.toSyntax)) True s t)
      (fun _ => Crashes (some (.start, s.toSyntax)) s) s := by
  unfold asciiInput
  rw [wp_bind, wp_get, wp_ite]
  split
  case isTrue hmode =>
      rw [wp_bind]
      apply wp_command (keeps_onExpr _) hmode
      intro _ t ht
      exact reads_of_fixed hwf hmode ht rfl rfl
  case isFalse =>
      exact reads_same hwf rfl rfl

/-!
## Labels and comments
-/

@[simp] theorem wp_clearGotoSkipLabel {post : Unit -> State W Reg -> Prop}
    {fail : TecoError -> State W Reg -> Prop} {bad : Fault -> Prop} :
    wp clearGotoSkipLabel post fail bad s <->
      post () { s with gotoSkipLabel := [], gotoBackupPc := none } := by
  simp [clearGotoSkipLabel]

@[simp] theorem wp_interfaceMsg (severity : Severity) (text : Bytes)
    {post : Unit -> State W Reg -> Prop}
    {fail : TecoError -> State W Reg -> Prop} {bad : Fault -> Prop} :
    wp (interfaceMsg severity text) post fail bad s <->
      post () (s.mapEditor (fun e =>
        { e with
          messages := { severity := severity, text := text } ::
            e.messages })) := by
  simp [interfaceMsg]

/-- A label is defined at two positions, about which there is a warning. -/
def State.redefinesLabel (s : State W Reg) : Prop :=
  exists pc, gotoTableFind s.machine.gotoTable s.machine.gotoLabel = some pc ∧
    pc ≠ s.machine.macroPc

/-- The label has been added to the table, and may have been searched. -/
theorem wp_labelDone :
    wp (labelDone env)
      (fun _ t =>
        (exists table mode,
          t.machine =
            { s.machine with
              gotoTable := table
              flags := { s.machine.flags with mode := mode } }) ∧
          (¬s.redefinesLabel -> t.editor = s.editor))
      (fun _ _ => False) (fun _ => False) s := by
  unfold labelDone
  rw [wp_bind, wp_get]
  dsimp only
  split
  case h_1 =>
      simp only [wp_bind, wp_modify, wp_undo, wp_ite,
        wp_clearGotoSkipLabel, wp_setMode, wp_pure]
      split
      · exact ⟨⟨_, Mode.normal, rfl⟩, fun _ => rfl⟩
      · exact ⟨⟨_, s.machine.flags.mode, rfl⟩, fun _ => rfl⟩
  case h_2 pc heq =>
      simp only [wp_ite, wp_interfaceMsg, wp_pure]
      split
      case isTrue hpc =>
          constructor
          · exact ⟨_, _, rfl⟩
          · intro h
            exact absurd ⟨pc, heq, hpc⟩ h
      case isFalse =>
          exact ⟨⟨_, _, rfl⟩, fun _ => trivial⟩

theorem wp_labelInput (chr : Gunichar) (hwf : s.WellFormed) :
    wp (labelInput env chr)
      (fun next t => Reads (some (s.toSyntax.labelInput chr))
        (chr = '!'.toNat -> s.machine.gotoLabel ≠ [] -> ¬s.redefinesLabel)
        s next t)
      (fun _ _ => False) (fun _ => False) s := by
  unfold labelInput Syntax.labelInput
  rw [wp_bind, wp_get]
  have hempty : s.toSyntax.labelEmpty = true <->
      s.machine.gotoLabel = [] := List.isEmpty_iff
  simp only [hempty]
  by_cases hblock : s.machine.gotoLabel = [] ∧ chr = '*'.toNat
  · rw [if_pos hblock, if_pos hblock]
    exact reads_same hwf rfl rfl
  rw [if_neg hblock, if_neg hblock]
  by_cases heol : s.machine.gotoLabel = [] ∧ chr = '!'.toNat
  · rw [if_pos heol, if_pos heol]
    exact reads_same hwf rfl rfl
  rw [if_neg heol, if_neg heol]
  by_cases hend : chr = '!'.toNat
  · rw [if_pos hend, if_pos hend, wp_bind]
    apply wp_call wp_labelDone
    intro _ t ht
    rcases ht with ⟨⟨table, mode, hmachine⟩, heditor⟩
    simp only [wp_bind, wp_undo, wp_modify, wp_pure]
    have hlabel : s.machine.gotoLabel ≠ [] := fun h => heol ⟨h, hend⟩
    refine ⟨?_, ⟨_, ?_, rfl⟩, ?_⟩
    · simp only [State.WellFormed, State.mapMachine, hmachine]
      exact hwf
    · simp only [State.toSyntax, State.mapMachine, hmachine]
      rfl
    · intro _
      simp only [State.mapMachine, hmachine]
      refine ⟨trivial, Or.inr trivial, fun hquiet => ⟨trivial, ?_⟩⟩
      exact heditor (hquiet hend hlabel)
  · rw [if_neg hend, if_neg hend]
    simp only [wp_bind, wp_undo, wp_modify, wp_pure]
    refine ⟨hwf, ⟨_, ?_, rfl⟩,
      fun hmode => ⟨rfl, Or.inl hmode, fun _ => ⟨rfl, rfl⟩⟩⟩
    simp [State.toSyntax, Machine.toSyntax, State.mapMachine,
      unicharToUtf8_ne_nil]

/-!
## Transitions
-/

/-- `<` and `>` have entries in the table, and do not allow `@`. -/
theorem keep_startTransition {chr : Gunichar} {c : Char} {entry : Transition}
    (hc : ascii chr = some c) (hupper : asciiToUpper chr = chr)
    (hentry : startTransitions c = some entry)
    (hnext : entry.next = MainState.start)
    (hat : entry.modifierAt = false) :
    s.toSyntax.keep (s.toSyntax.startTransition chr) =
      s.toSyntax.unmodified := by
  simp only [Syntax.startTransition, Syntax.transition, Syntax.unmodified,
    Syntax.keep, hupper, hc, Option.bind_some, hentry, hat, and_true, hnext]
  split
  · rfl
  · rfl

variable [DecidableEq Reg]

theorem wp_transitionInput (transitions : Char -> Option Transition)
    (chr : Gunichar) (hwf : s.WellFormed) :
    wp (transitionInput host env transitions chr)
      (fun next t => Reads
        (s.toSyntax.keep (s.toSyntax.transition transitions chr)) True s
        next t)
      (fun _ t => Rejects
        (s.toSyntax.keep (s.toSyntax.transition transitions chr)) True s t)
      (fun _ => Crashes
        (s.toSyntax.keep (s.toSyntax.transition transitions chr)) s) s := by
  unfold transitionInput Syntax.transition
  rw [wp_bind, wp_get]
  cases (ascii chr).bind transitions with
  | none =>
      intro _
      exact ⟨rfl, fun _ => rfl⟩
  | some entry =>
      dsimp only
      by_cases hat : s.machine.flags.modifierAt = true ∧
          entry.modifierAt = false
      · rw [if_pos (Or.inl hat)]
        intro _
        refine ⟨?_, fun _ => rfl⟩
        rw [if_pos (show s.toSyntax.modifierAt = true ∧
          entry.modifierAt = false from hat)]
        rfl
      · rw [wp_ite]
        have hstep : s.toSyntax.keep
              (if s.toSyntax.modifierAt = true ∧ entry.modifierAt = false
              then none else some entry.next) =
            some (entry.next, s.toSyntax) := by
          rw [if_neg (show ¬(s.toSyntax.modifierAt = true ∧
            entry.modifierAt = false) from hat)]
          rfl
        split
        case isTrue hmodifier =>
            intro hmode
            rcases hmodifier with hmodifier | hmodifier
            · exact absurd hmodifier hat
            · exact absurd hmodifier.1 hmode
        case isFalse =>
            split
            · rw [wp_ite]
              split
              case isTrue hmode =>
                  rw [wp_bind]
                  apply wp_command (keeps_runCallback _) hmode
                  intro _ t ht
                  exact reads_of_fixed hwf hmode ht hstep rfl
              case isFalse =>
                  exact reads_same hwf hstep rfl
            · exact reads_same hwf hstep rfl

theorem wp_startTransition (chr : Gunichar) (hwf : s.WellFormed) :
    wp (startTransition host env chr)
      (fun next t => Reads
        (s.toSyntax.keep (s.toSyntax.startTransition chr)) True s next t)
      (fun _ t => Rejects
        (s.toSyntax.keep (s.toSyntax.startTransition chr)) True s t)
      (fun _ => Crashes
        (s.toSyntax.keep (s.toSyntax.startTransition chr)) s) s :=
  wp_transitionInput startTransitions (asciiToUpper chr) hwf

theorem wp_controlInput (chr : Gunichar) (hwf : s.WellFormed) :
    wp (controlInput host env chr)
      (fun next t => Reads
        (s.toSyntax.keep (s.toSyntax.controlInput chr)) True s next t)
      (fun _ t => Rejects
        (s.toSyntax.keep (s.toSyntax.controlInput chr)) True s t)
      (fun _ => Crashes
        (s.toSyntax.keep (s.toSyntax.controlInput chr)) s) s :=
  wp_transitionInput controlTransitions (asciiToUpper chr) hwf

/-- `<` and `>`, which are counted while a loop is skipped. -/
theorem wp_loopInput {chr : Gunichar} {c : Char} {entry : Transition}
    {skip : Exec (State W Reg) MainState} (err : TecoError)
    (hwf : s.WellFormed) (hc : ascii chr = some c)
    (hupper : asciiToUpper chr = chr)
    (hentry : startTransitions c = some entry)
    (hnext : entry.next = MainState.start)
    (hat : entry.modifierAt = false)
    (hskip : s.toSyntax.unmodified = some (MainState.start, s.toSyntax) ->
      wp skip (fun next t => Reads s.toSyntax.unmodified True s next t)
        (fun _ t => Rejects s.toSyntax.unmodified True s t)
        (fun _ => Crashes s.toSyntax.unmodified s) s) :
    wp
      (if s.machine.flags.modifierAt then
        throw err
      else if s.mode = Mode.parseOnlyLoop then
        skip
      else
        startTransition host env chr)
      (fun next t => Reads s.toSyntax.unmodified True s next t)
      (fun _ t => Rejects s.toSyntax.unmodified True s t)
      (fun _ => Crashes s.toSyntax.unmodified s) s := by
  rw [wp_ite]
  split
  case isTrue hmodifier =>
      intro _
      rw [Syntax.unmodified, if_pos (show s.toSyntax.modifierAt = true from
        hmodifier)]
      exact ⟨rfl, fun _ => rfl⟩
  case isFalse hmodifier =>
      rw [wp_ite]
      split
      · apply hskip
        rw [Syntax.unmodified, if_neg (show ¬s.toSyntax.modifierAt = true
          from hmodifier)]
      · rw [<- keep_startTransition hc hupper hentry hnext hat]
        exact wp_startTransition chr hwf

/-- The first character of a command. -/
theorem wp_startInput (chr : Gunichar) (hwf : s.WellFormed) :
    wp (startInput host env chr)
      (fun next t => Reads (s.toSyntax.startInput env chr) True s next t)
      (fun _ t => Rejects (s.toSyntax.startInput env chr) True s t)
      (fun _ => Crashes (s.toSyntax.startInput env chr) s) s := by
  unfold startInput
  rw [wp_bind, wp_get]
  by_cases hnoop : isNoop chr = true
  · have hstep : s.toSyntax.startInput env chr = s.toSyntax.unmodified := by
      rw [Syntax.startInput, if_pos hnoop]
    rw [if_pos hnoop, hstep]
    apply wp_unmodified
    intro _
    exact reads_same hwf rfl rfl
  by_cases hdigit : '0'.toNat <= chr ∧ chr <= '9'.toNat
  · have hstep : s.toSyntax.startInput env chr = s.toSyntax.unmodified := by
      rw [Syntax.startInput, if_neg hnoop, if_pos hdigit]
    rw [if_neg hnoop, if_pos hdigit, hstep]
    apply wp_unmodified
    intro _
    exact wp_digit chr hwf
  rw [if_neg hnoop, if_neg hdigit]
  split
  case h_1 heq =>
      simp only [Syntax.startInput, if_neg hnoop, if_neg hdigit, heq]
      rw [wp_ite]
      split
      · exact reads_same hwf rfl rfl
      · exact wp_startTransition chr hwf
  case h_2 heq =>
      have hstep : s.toSyntax.startInput env chr = s.toSyntax.unmodified := by
        simp only [Syntax.startInput, if_neg hnoop, if_neg hdigit, heq]
      rw [hstep]
      apply wp_loopInput _ hwf heq _ rfl rfl rfl
      · exact wp_skipLoopOpen hwf
      · rw [ascii_eq heq]
        decide
  case h_3 heq =>
      have hstep : s.toSyntax.startInput env chr = s.toSyntax.unmodified := by
        simp only [Syntax.startInput, if_neg hnoop, if_neg hdigit, heq]
      rw [hstep]
      apply wp_loopInput _ hwf heq _ rfl rfl rfl
      · exact wp_skipLoopClose hwf
      · rw [ascii_eq heq]
        decide
  case h_4 heq =>
      simp only [Syntax.startInput, if_neg hnoop, if_neg hdigit, heq]
      apply wp_unmodified
      intro _
      exact wp_condElse hwf
  case h_5 heq =>
      simp only [Syntax.startInput, if_neg hnoop, if_neg hdigit, heq]
      apply wp_unmodified
      intro _
      exact wp_condEnd hwf
  case h_6 heq =>
      apply wp_wordCommand _ hwf
      simp only [Syntax.startInput, if_neg hnoop, if_neg hdigit, heq]
  case h_7 heq =>
      apply wp_wordCommand _ hwf
      simp only [Syntax.startInput, if_neg hnoop, if_neg hdigit, heq]
  case h_8 heq =>
      apply wp_wordCommand _ hwf
      simp only [Syntax.startInput, if_neg hnoop, if_neg hdigit, heq]
  case h_9 heq =>
      apply wp_wordCommand _ hwf
      simp only [Syntax.startInput, if_neg hnoop, if_neg hdigit, heq]
  case h_10 heq =>
      apply wp_wordCommand _ hwf
      simp only [Syntax.startInput, if_neg hnoop, if_neg hdigit, heq]
  case h_11 heq =>
      apply wp_wordCommand _ hwf
      simp only [Syntax.startInput, if_neg hnoop, if_neg hdigit, heq]
  case h_12 heq =>
      apply wp_wordCommand _ hwf
      simp only [Syntax.startInput, if_neg hnoop, if_neg hdigit, heq]
  case h_13 heq =>
      apply wp_wordCommand _ hwf
      simp only [Syntax.startInput, if_neg hnoop, if_neg hdigit, heq]
  case h_14 heq =>
      apply wp_atModifier chr hwf
      simp only [Syntax.startInput, if_neg hnoop, if_neg hdigit, heq]
  case h_15 heq =>
      apply wp_colonModifier chr hwf
      simp only [Syntax.startInput, if_neg hnoop, if_neg hdigit, heq]
  case h_16 =>
      have hstep : s.toSyntax.startInput env chr =
          if isCtl chr then
            s.toSyntax.keep (s.toSyntax.controlInput (ctlEcho chr))
          else
            s.toSyntax.keep (s.toSyntax.startTransition chr) := by
        unfold Syntax.startInput
        rw [if_neg hnoop, if_neg hdigit]
        split <;> first | contradiction | rfl
      rw [hstep]
      split
      · exact wp_controlInput (ctlEcho chr) hwf
      · exact wp_startTransition chr hwf

/-!
## States that look ahead
-/

/-- Continue with the next command. -/
theorem wp_thenStart (chr : Gunichar) {t : State W Reg}
    (hwf : s.WellFormed) (hmode : s.mode = Mode.normal)
    (ht : t.fixed = s.fixed) :
    wp (startInput host env chr)
      (fun next u => Reads (s.toSyntax.startInput env chr) True s next u)
      (fun _ u => Rejects (s.toSyntax.startInput env chr) True s u)
      (fun _ => Crashes (s.toSyntax.startInput env chr) s) t := by
  have h : wp (startInput host env chr) _ _ _ t :=
    wp_startInput chr (wellFormed_of_fixed hwf ht)
  rw [toSyntax_of_fixed ht] at h
  exact wp_after hmode h

theorem wp_escapeInput (chr : Gunichar) (hwf : s.WellFormed) :
    wp (escapeInput host env chr)
      (fun next t => Reads
        (if chr = 0x1B ∨ chr = '$'.toNat then some (.start, s.toSyntax)
        else s.toSyntax.startInput env chr) True s next t)
      (fun _ t => Rejects
        (if chr = 0x1B ∨ chr = '$'.toNat then some (.start, s.toSyntax)
        else s.toSyntax.startInput env chr) True s t)
      (fun _ => Crashes
        (if chr = 0x1B ∨ chr = '$'.toNat then some (.start, s.toSyntax)
        else s.toSyntax.startInput env chr) s) s := by
  unfold escapeInput
  rw [wp_bind, wp_get]
  by_cases hescape : chr = 0x1B ∨ chr = '$'.toNat
  · rw [if_pos hescape, if_pos hescape, wp_ite]
    split
    case isTrue hmode =>
        rw [wp_bind]
        apply wp_tecoReturn
        · intro _ _ h
          exact absurd hmode h
        · intro _ h
          exact absurd hmode h
    case isFalse =>
        exact reads_same hwf rfl rfl
  · rw [if_neg hescape, if_neg hescape, wp_ite]
    split
    case isTrue hmode =>
        rw [wp_bind]
        apply wp_command (keeps_onExpr _) hmode
        intro _ t ht
        exact wp_thenStart chr hwf hmode ht
    case isFalse =>
        exact wp_startInput chr hwf

theorem wp_ctlcControlInput (chr : Gunichar) (hwf : s.WellFormed) :
    wp (ctlcControlInput host env chr)
      (fun next t => Reads
        (s.toSyntax.keep (s.toSyntax.ctlcControlInput chr)) True s next t)
      (fun _ t => Rejects
        (s.toSyntax.keep (s.toSyntax.ctlcControlInput chr)) True s t)
      (fun _ => Crashes
        (s.toSyntax.keep (s.toSyntax.ctlcControlInput chr)) s) s := by
  unfold ctlcControlInput Syntax.ctlcControlInput
  rw [wp_bind, wp_get]
  by_cases hc : chr = 'c'.toNat ∨ chr = 'C'.toNat
  · rw [if_pos hc, if_pos hc, wp_ite]
    split
    case isTrue =>
        exact reads_same hwf rfl rfl
    case isFalse hmode =>
        have hnormal : s.mode = Mode.normal := not_not.mp hmode
        rw [wp_ite]
        split
        · intro h
          exact absurd hnormal h
        · rw [wp_bind]
          apply wp_command (keeps_onExpr _) hnormal
          intro _ t _ h
          exact absurd hnormal h
  · rw [if_neg hc, if_neg hc, wp_ite]
    split
    case isTrue hmode =>
        rw [wp_bind]
        apply wp_tecoReturn
        · intro _ _ h
          exact absurd hmode h
        · intro _ h
          exact absurd hmode h
    case isFalse =>
        exact wp_controlInput chr hwf

theorem wp_ctlcInput (chr : Gunichar) (hwf : s.WellFormed) :
    wp (ctlcInput host env chr)
      (fun next t => Reads
        (if chr = ctlKey 'C'.toNat then some (.start, s.toSyntax)
        else if chr = '^'.toNat then some (.ctlcControl, s.toSyntax)
        else s.toSyntax.startInput env chr) True s next t)
      (fun _ t => Rejects
        (if chr = ctlKey 'C'.toNat then some (.start, s.toSyntax)
        else if chr = '^'.toNat then some (.ctlcControl, s.toSyntax)
        else s.toSyntax.startInput env chr) True s t)
      (fun _ => Crashes
        (if chr = ctlKey 'C'.toNat then some (.start, s.toSyntax)
        else if chr = '^'.toNat then some (.ctlcControl, s.toSyntax)
        else s.toSyntax.startInput env chr) s) s := by
  unfold ctlcInput
  rw [wp_bind, wp_get]
  by_cases hkey : chr = ctlKey 'C'.toNat
  · rw [if_pos hkey, if_pos hkey]
    exact wp_ctlcControlInput 'C'.toNat hwf
  rw [if_neg hkey, if_neg hkey]
  by_cases hcaret : chr = '^'.toNat
  · rw [if_pos hcaret, if_pos hcaret]
    exact reads_same hwf rfl rfl
  rw [if_neg hcaret, if_neg hcaret, wp_ite]
  split
  case isTrue hmode =>
      rw [wp_bind]
      apply wp_tecoReturn
      · intro _ _ h
        exact absurd hmode h
      · intro _ h
        exact absurd hmode h
  case isFalse =>
      exact wp_startInput chr hwf

/-- A number that is still to be printed, before the next command. -/
theorem wp_printThenStart (radix : Nat) (chr : Gunichar)
    (hwf : s.WellFormed) :
    wp (do printDeferred env radix; startInput host env chr)
      (fun next t => Reads (s.toSyntax.startInput env chr) True s next t)
      (fun _ t => Rejects (s.toSyntax.startInput env chr) True s t)
      (fun _ => Crashes (s.toSyntax.startInput env chr) s) s := by
  rw [wp_bind]
  by_cases hmode : s.mode = Mode.normal
  · apply wp_command (keeps_printDeferred radix) hmode
    intro _ t ht
    exact wp_thenStart chr hwf hmode ht
  · unfold printDeferred
    rw [wp_bind, wp_get, if_neg hmode]
    exact wp_startInput chr hwf

theorem wp_printDecimalInput (chr : Gunichar) (hwf : s.WellFormed) :
    wp (printDecimalInput host env chr)
      (fun next t => Reads
        (if chr = '='.toNat then some (.printOctal, s.toSyntax)
        else s.toSyntax.startInput env chr) True s next t)
      (fun _ t => Rejects
        (if chr = '='.toNat then some (.printOctal, s.toSyntax)
        else s.toSyntax.startInput env chr) True s t)
      (fun _ => Crashes
        (if chr = '='.toNat then some (.printOctal, s.toSyntax)
        else s.toSyntax.startInput env chr) s) s := by
  unfold printDecimalInput
  by_cases hequals : chr = '='.toNat
  · rw [if_pos hequals, if_pos hequals]
    exact reads_same hwf rfl rfl
  · rw [if_neg hequals, if_neg hequals]
    exact wp_printThenStart 10 chr hwf

theorem wp_printOctalInput (chr : Gunichar) (hwf : s.WellFormed) :
    wp (printOctalInput host env chr)
      (fun next t => Reads
        (if chr = '='.toNat then some (.start, s.toSyntax)
        else s.toSyntax.startInput env chr) True s next t)
      (fun _ t => Rejects
        (if chr = '='.toNat then some (.start, s.toSyntax)
        else s.toSyntax.startInput env chr) True s t)
      (fun _ => Crashes
        (if chr = '='.toNat then some (.start, s.toSyntax)
        else s.toSyntax.startInput env chr) s) s := by
  unfold printOctalInput
  rw [wp_bind, wp_get]
  by_cases hequals : chr = '='.toNat
  · rw [if_pos hequals, if_pos hequals, wp_ite]
    split
    case isTrue hmode =>
        rw [wp_bind]
        apply wp_command (keeps_print 16) hmode
        intro _ t ht
        rw [wp_bind]
        apply (keeps_onExpr _).wp
        · intro _ u hu
          exact reads_of_fixed hwf hmode (hu.trans ht) rfl rfl
        · intro _ _ h
          exact absurd hmode h
        · intro _ h
          exact absurd hmode h
    case isFalse =>
        exact reads_same hwf rfl rfl
  · rw [if_neg hequals, if_neg hequals]
    exact wp_printThenStart 8 chr hwf

end Commands

end Parser
end SciTECO
