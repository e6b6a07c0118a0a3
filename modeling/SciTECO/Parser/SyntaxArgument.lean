import SciTECO.Parser.SyntaxMain

/-!
# Syntax of arguments

The states which collect a Q-Register or a string read the characters of their
argument with and without execution, and continue in the same state.
-/

namespace SciTECO
namespace Parser

open Undoable
open QReg (Table)

variable {W Reg : Type} {host : Host W Reg} {env : Env} {s : State W Reg}

/-!
## Work in normal mode
-/

/-- A callback that returns at once in parse-only mode. -/
def Hosted (s t : State W Reg) : Prop :=
  t.machine.fixed = s.machine.fixed ∧ (s.mode ≠ Mode.normal -> t = s)

theorem hosted_refl (s : State W Reg) : Hosted s s :=
  ⟨rfl, fun _ => rfl⟩

theorem wp_whenNormal {m : Exec (State W Reg) Unit}
    (hm : Keeps (fun s => s.machine.fixed) m) :
    wp (do
        let mode <- getMode
        if mode ≠ Mode.normal then pure () else m)
      (fun _ t => Hosted s t) (fun _ _ => s.mode = Mode.normal)
      (fun _ => s.mode = Mode.normal) s := by
  rw [wp_bind, wp_getMode, wp_ite]
  split
  case isTrue =>
      exact hosted_refl s
  case isFalse h =>
      have hnormal : s.mode = Mode.normal := not_not.mp h
      apply hm.wp
      · intro _ t ht
        exact ⟨ht, fun h => absurd hnormal h⟩
      · intro _ _
        exact hnormal
      · intro _
        exact hnormal

theorem reads_hosted {step : Option (MainState × Syntax)} {quiet : Prop}
    {n next : MainState} {t : State W Reg} (hwf : s.WellFormed)
    (h : Hosted s t) (hstep : step = some (n, s.toSyntax))
    (hnext : n.normalize = next.normalize) : Reads step quiet s next t := by
  refine ⟨wellFormed_of_machine hwf h.1, ⟨n, ?_, hnext⟩, ?_⟩
  · rw [toSyntax_of_machine h.1]
    exact hstep
  · intro hmode
    rw [h.2 hmode]
    exact ⟨rfl, Or.inl hmode, fun _ => ⟨rfl, rfl⟩⟩

/-- A change of the machine that comes first. -/
theorem wp_changed {α : Type} {step : Option (MainState × Syntax)}
    {quiet : Prop} {m : Exec (State W Reg) α} {s' : State W Reg}
    {next : α -> MainState}
    (hmode : s'.mode = s.mode)
    (hpc : s'.machine.macroPc = s.machine.macroPc)
    (hlen : s'.machine.expectstring.insertLen =
      s.machine.expectstring.insertLen)
    (heditor : s'.editor = s.editor)
    (hm : wp m (fun a t => Reads step quiet s' (next a) t)
      (fun _ t => Rejects step quiet s' t) (fun _ => Crashes step s') s') :
    wp m (fun a t => Reads step quiet s (next a) t)
      (fun _ t => Rejects step quiet s t) (fun _ => Crashes step s) s' := by
  apply wp_mono hm
  · intro a t ht
    refine ⟨ht.1, ht.2.1, ?_⟩
    rw [<- hmode, <- hpc, <- hlen, <- heditor]
    exact ht.2.2
  · intro _ t ht
    rw [Rejects, <- hmode, <- heditor]
    exact ht
  · intro _ hc
    rw [Crashes, <- hmode]
    exact hc

/-!
## Q-Registers
-/

@[simp] theorem wp_expectqregReset {post : Unit -> State W Reg -> Prop}
    {fail : TecoError -> State W Reg -> Prop} {bad : Fault -> Prop} :
    wp (expectqregReset env) post fail bad s <->
      post () (s.mapMachine (fun m => { m with expectqreg := none })) := by
  simp [expectqregReset]

theorem wellFormed_reset (hwf : s.WellFormed) :
    (s.mapMachine (fun m => { m with expectqreg := none })).WellFormed := by
  constructor
  · exact hwf.1
  · intro spec h
    exact absurd h (by simp [State.mapMachine])

theorem wp_hostGotRegister (cmd : QRegCommand) (qreg : Option Reg)
    (table : Table) (modifierAt : Bool) :
    wp (hostGotRegister host env cmd qreg table modifierAt)
      (fun _ t => Hosted s t) (fun _ _ => s.mode = Mode.normal)
      (fun _ => s.mode = Mode.normal) s :=
  wp_whenNormal ((keeps_onHost _).comp Prod.fst)

/-- The callback of a command which is complete with its register. -/
theorem wp_gotLast (cmd : QRegCommand) (qreg : Option Reg) (table : Table)
    (modifierAt : Bool) (next : MainState) {step : Option (MainState × Syntax)}
    (hwf : s.WellFormed) (hstep : step = some (next, s.toSyntax)) :
    wp (do
        hostGotRegister host env cmd qreg table modifierAt
        pure next)
      (fun next t => Reads step True s next t)
      (fun _ t => Rejects step True s t) (fun _ => Crashes step s) s := by
  rw [wp_bind]
  apply wp_mono (wp_hostGotRegister cmd qreg table modifierAt)
  · intro _ t ht
    rw [wp_pure]
    exact reads_hosted hwf ht hstep rfl
  · intro _ _ hmode h
    exact absurd hmode h
  · intro _ hmode h
    exact absurd hmode h

theorem wp_gotRegister (cmd : QRegCommand) (qreg : Option Reg)
    (table : Table) {step : Option (MainState × Syntax)}
    (hwf : s.WellFormed)
    (hstep : step = some (Syntax.afterQReg cmd, s.toSyntax.qregDone cmd)) :
    wp (gotRegister host env cmd qreg table)
      (fun next t => Reads step True s next t)
      (fun _ t => Rejects step True s t) (fun _ => Crashes step s) s := by
  have hdone (cmd : QRegCommand)
      (hstep : step = some (MainState.start,
        (s.mapMachine (fun m => { m with expectqreg := none })).toSyntax)) :
      wp (do
          expectqregReset env
          hostGotRegister host env cmd qreg table false
          pure MainState.start)
        (fun next t => Reads step True s next t)
        (fun _ t => Rejects step True s t) (fun _ => Crashes step s) s := by
    rw [wp_bind, wp_expectqregReset]
    apply wp_changed rfl rfl rfl rfl
    exact wp_gotLast cmd qreg table false _ (wellFormed_reset hwf) hstep
  cases cmd with
  | eqcommand => exact reads_same hwf hstep rfl
  | epctcommand => exact reads_same hwf hstep rfl
  | ctlucommand => exact reads_same hwf hstep rfl
  | eucommand => exact reads_same hwf hstep rfl
  | egcommand =>
      unfold gotRegister
      rw [wp_bind, wp_expectqregReset]
      apply wp_changed rfl rfl rfl rfl
      exact wp_gotLast _ qreg table false _ (wellFormed_reset hwf) hstep
  | copytoqreg =>
      unfold gotRegister
      rw [wp_bind, wp_expectqregReset, wp_bind, wp_evalAt]
      have hwf' := wellFormed_reset hwf
      apply wp_changed rfl rfl rfl rfl
      exact wp_gotLast _ qreg table _ _ hwf' hstep
  | pushqreg => exact hdone _ hstep
  | popqreg => exact hdone _ hstep
  | queryqreg => exact hdone _ hstep
  | getqregstring => exact hdone _ hstep
  | setqreginteger => exact hdone _ hstep
  | increaseqreg => exact hdone _ hstep
  | macroCall => exact hdone _ hstep
  | saveCmdline => exact hdone _ hstep

theorem wp_expectqregInput (cmd : QRegCommand) (chr : Gunichar)
    (hwf : s.WellFormed) :
    wp (expectqregInput host env cmd chr)
      (fun next t => Reads (s.toSyntax.expectqregInput cmd chr) True s next t)
      (fun _ t => Rejects (s.toSyntax.expectqregInput cmd chr) True s t)
      (fun _ => Crashes (s.toSyntax.expectqregInput cmd chr) s) s := by
  unfold expectqregInput
  rw [wp_bind, wp_get]
  cases hqreg : s.machine.expectqreg with
  | none =>
      intro _
      simp [Syntax.expectqregInput, State.toSyntax, Machine.toSyntax, hqreg]
  | some q =>
      have hspec : s.toSyntax.qregspec = some q.toSyntax := by
        simp [State.toSyntax, Machine.toSyntax, hqreg]
      have hinner : wp (sbInputOf host env chr q.stringbuilding
          (decide (s.mode = Mode.normal))) _ _ _ _ :=
        wp_sbInputOf chr q.stringbuilding (decide (s.mode = Mode.normal))
          s.editor (hwf.2 q hqreg)
      have hinput : wp (specInput host env (decide (s.mode = Mode.normal))
          (sbInputOf host env chr q.stringbuilding) chr) _ _ _ _ :=
        wp_specInput (decide (s.mode = Mode.normal)) chr q s.editor
          (hwf.2 q hqreg) hinner
      simp only [wp_bind, wp_zoom]
      have hget : (expectqregLens q).get s = (q, s.editor) := by
        simp [expectqregLens, hqreg]
      rw [hget]
      apply wp_mono hinput
      · intro status t ht
        rcases ht with ⟨hinner', hstep, hdone, heditor⟩
        have hwf' : ((expectqregLens q).set t s).WellFormed := by
          constructor
          · exact hwf.1
          · intro spec h
            rw [<- Option.some.inj h]
            exact hinner'
        have hquiet (hmode : s.mode ≠ Mode.normal) : t.2 = s.editor :=
          heditor (by simpa using hmode)
        cases status with
        | none =>
            have hopen : t.1.core.current ≠ SpecState.start := by
              intro h
              exact absurd (hdone.mpr h) (by simp)
            refine ⟨hwf', ⟨MainState.expectqreg cmd, ?_, rfl⟩, ?_⟩
            · simp only [Syntax.expectqregInput, hspec, QRegSpec.toSyntax,
                hstep, if_neg hopen]
              rfl
            · intro hmode
              exact ⟨rfl, Or.inl hmode, fun _ => ⟨rfl, hquiet hmode⟩⟩
        | some found =>
            have hstart : t.1.core.current = SpecState.start :=
              hdone.mp rfl
            have hnext : s.toSyntax.expectqregInput cmd chr =
                some (Syntax.afterQReg cmd,
                  ((expectqregLens q).set t s).toSyntax.qregDone cmd) := by
              simp only [Syntax.expectqregInput, hspec, QRegSpec.toSyntax,
                hstep, if_pos hstart]
              rfl
            by_cases hmode : s.mode = Mode.normal
            · apply wp_after hmode
              exact wp_gotRegister cmd found.1 found.2 hwf' hnext
            · have h : wp (gotRegister host env cmd found.1 found.2)
                  _ _ _ _ :=
                wp_gotRegister cmd found.1 found.2 hwf' hnext
              exact wp_changed rfl rfl rfl (hquiet hmode) h
      · intro _ t ht hmode
        rcases ht (by simpa using hmode) with ⟨hnone, heditor⟩
        refine ⟨?_, fun _ => heditor⟩
        simp only [Syntax.expectqregInput, hspec, QRegSpec.toSyntax, hnone]
      · intro _ hmode h
        exact absurd (by simpa using hmode) h

/-!
## The end of a string
-/

/-- The process callback can be run. -/
def ProcessOk (host : Host W Reg) (env : Env) (cmd : StringCommand)
    (s : State W Reg) : Prop :=
  exists t tokens, stringProcess host env cmd s = .ok () t tokens

theorem processOk_iff (cmd : StringCommand) :
    ProcessOk host env cmd s <->
      wp (stringProcess host env cmd) (fun _ _ => True) (fun _ _ => False)
        (fun _ => False) s := by
  unfold ProcessOk wp
  cases stringProcess host env cmd s <;> simp

/-- It works on the string, and on the editor. -/
theorem processOk_congr {cmd : StringCommand} {t : State W Reg}
    (hstring : t.machine.expectstring.string =
      s.machine.expectstring.string)
    (hlen : t.machine.expectstring.insertLen =
      s.machine.expectstring.insertLen)
    (hcodepage : t.machine.expectstring.machine.core.codepage =
      s.machine.expectstring.machine.core.codepage)
    (hcommand : commandLens.get t = commandLens.get s)
    (h : ProcessOk host env cmd s) : ProcessOk host env cmd t := by
  rw [processOk_iff] at h ⊢
  unfold stringProcess expectfileProcess at h ⊢
  simp only [wp_bind, wp_get, hstring, hlen, hcodepage] at h ⊢
  split
  case isTrue => trivial
  case isFalse hzero =>
      rw [if_neg hzero] at h
      split
      case isTrue hfile =>
          rw [if_pos hfile] at h
          split
          case isTrue hempty =>
              rw [if_pos hempty] at h
              exact h
          case isFalse hempty =>
              rw [if_neg hempty] at h
              split
              case isTrue hnull =>
                  rw [if_pos hnull] at h
                  exact h
              case isFalse => trivial
      case isFalse hfile =>
          rw [if_neg hfile] at h
          split
          case isTrue hinteractive =>
              rw [if_pos hinteractive] at h
              unfold onHost at h ⊢
              rw [wp_zoom] at h ⊢
              rw [hcommand]
              exact h
          case isFalse => trivial

/-- What a process callback keeps. -/
def State.placed (s : State W Reg) : (Machine Reg × Bytes) × Mode × Nat :=
  (s.fixed, s.mode, s.machine.macroPc)

theorem keeps_stringProcess (cmd : StringCommand) :
    Keeps State.placed
      (stringProcess host env cmd : Exec (State W Reg) Unit) := by
  unfold stringProcess expectfileProcess
  apply Keeps.bind Keeps.get
  intro s
  apply Keeps.ite (Keeps.pure ())
  apply Keeps.ite
  · apply Keeps.ite (Keeps.fault _)
    exact Keeps.ite (Keeps.throw _) (Keeps.pure ())
  · apply Keeps.ite
    · exact Keeps.zoom _ (fun _ _ => rfl)
    · exact Keeps.pure ()

theorem wp_stringProcess (cmd : StringCommand) :
    wp (stringProcess host env cmd)
      (fun _ t =>
        ProcessOk host env cmd s ∧ t.placed = s.placed ∧
          (s.machine.expectstring.insertLen = 0 -> t = s))
      (fun _ _ => ¬ProcessOk host env cmd s)
      (fun _ => ¬ProcessOk host env cmd s) s := by
  have hkeeps : wp (stringProcess host env cmd) _ _ _ s :=
    keeps_stringProcess cmd s
  unfold wp at hkeeps ⊢
  cases hrun : stringProcess host env cmd s with
  | ok u t tokens =>
      rw [hrun] at hkeeps
      refine ⟨⟨t, tokens, hrun⟩, hkeeps, ?_⟩
      intro hzero
      have hpure : stringProcess host env cmd s = .ok () s [] := by
        unfold stringProcess
        change Undoable.bind Undoable.get _ s = _
        simp [Undoable.bind, Undoable.get, hzero]
        rfl
      rw [hpure] at hrun
      cases hrun
      rfl
  | error e t tokens =>
      rintro ⟨u, tokens', hok⟩
      rw [hrun] at hok
      cases hok
  | fault c =>
      rintro ⟨u, tokens', hok⟩
      rw [hrun] at hok
      cases hok

theorem keeps_gotoLabel (label : Bytes) (colonModified : Bool) :
    Keeps (fun s : State W Reg => s.machine.fixed)
      (gotoLabel env label colonModified) := by
  unfold gotoLabel
  apply Keeps.bind Keeps.get
  intro s
  split
  · exact Keeps.modify (fun _ => rfl)
  · apply Keeps.ite
    · exact Keeps.ite (Keeps.pure ()) (Keeps.throw _)
    · apply Keeps.ite (Keeps.fault _)
      apply Keeps.bind (Keeps.emit _)
      intro _
      apply Keeps.bind
      · exact Keeps.modify (fun _ => rfl)
      · intro _
        apply Keeps.bind (Keeps.emit _)
        intro _
        apply Keeps.bind
        · exact Keeps.modify (fun _ => rfl)
        · intro _
          exact (keeps_setMode _).comp Prod.fst

theorem keeps_gotoDone (str : Bytes) :
    Keeps (fun s : State W Reg => s.machine.fixed) (gotoDone env str) := by
  unfold gotoDone
  apply Keeps.ite (Keeps.throw _)
  apply Keeps.bind ((keeps_onExpr _).comp Prod.fst)
  intro value
  apply Keeps.bind (keeps_evalColon.comp Prod.fst)
  intro colon
  exact Keeps.ite (Keeps.pure ()) (keeps_gotoLabel _ _)

theorem keeps_searchSucceeded :
    Keeps State.fixed (searchSucceeded host : Exec (State W Reg) Bool) := by
  unfold searchSucceeded
  apply Keeps.bind Keeps.get
  intro s
  split
  · exact Keeps.fault _
  · apply Keeps.bind (keeps_editor _)
    intro v
    exact Keeps.pure _

/-- A string argument is complete, and `next` follows. -/
def Completes (cmd : StringCommand) (s : State W Reg) (next : MainState)
    (t : State W Reg) : Prop :=
  next.normalize = (Syntax.afterString cmd).normalize ∧
    t.machine.fixed = s.machine.fixed ∧
    (s.mode ≠ Mode.normal ->
      t.machine = s.machine ∧
        (cmd ≠ StringCommand.printString -> t.editor = s.editor))

theorem completes_hosted {cmd : StringCommand} {next : MainState}
    {t : State W Reg} (h : Hosted s t)
    (hnext : next.normalize = (Syntax.afterString cmd).normalize) :
    Completes cmd s next t := by
  refine ⟨hnext, h.1, ?_⟩
  intro hmode
  rw [h.2 hmode]
  exact ⟨rfl, fun _ => rfl⟩

theorem wp_hostStringDone (cmd : StringCommand)
    (qreg : Option (Option Reg × Table)) (str : Bytes) :
    wp (hostStringDone host env cmd qreg str) (fun _ t => Hosted s t)
      (fun _ _ => s.mode = Mode.normal) (fun _ => s.mode = Mode.normal) s :=
  wp_whenNormal ((keeps_onHost _).comp Prod.fst)

/-- A command of the host. -/
theorem wp_completeHost (cmd cmd' : StringCommand)
    (qreg : Option (Option Reg × Table)) (str : Bytes) {next : MainState}
    (hnext : next.normalize = (Syntax.afterString cmd').normalize) :
    wp (do
        hostStringDone host env cmd qreg str
        pure next)
      (fun next t => Completes cmd' s next t)
      (fun _ _ => s.mode = Mode.normal) (fun _ => s.mode = Mode.normal) s := by
  rw [wp_bind]
  apply wp_call (wp_hostStringDone cmd qreg str)
  intro _ t ht
  rw [wp_pure]
  exact completes_hosted ht hnext

theorem wp_replaceDone (cmd cmd' found notFound : StringCommand)
    (str : Bytes)
    (hfound : (MainState.expectstring found).normalize =
      (Syntax.afterString cmd').normalize)
    (hnotFound : (MainState.expectstring notFound).normalize =
      (Syntax.afterString cmd').normalize) :
    wp (replaceDone host env cmd found notFound str)
      (fun next t => Completes cmd' s next t)
      (fun _ _ => s.mode = Mode.normal) (fun _ => s.mode = Mode.normal) s := by
  unfold replaceDone
  rw [wp_bind, wp_getMode, wp_ite]
  split
  case isTrue =>
      exact completes_hosted (hosted_refl s) hnotFound
  case isFalse hmode =>
      have hnormal : s.mode = Mode.normal := not_not.mp hmode
      rw [wp_bind]
      apply wp_call (wp_hostStringDone cmd none str)
      intro _ t ht
      rw [wp_bind]
      apply keeps_searchSucceeded.wp
      · intro success u hu
        rw [wp_pure]
        refine ⟨?_, (congrArg Prod.fst hu).trans ht.1, ?_⟩
        · cases success
          · exact hnotFound
          · exact hfound
        · intro h
          exact absurd hnormal h
      · intro _ _
        exact hnormal
      · intro _
        exact hnormal

theorem wp_stringDone (cmd : StringCommand) (str : Bytes)
    (hqreg : cmd.hasQReg = false) :
    wp (stringDone host env cmd str)
      (fun next t => Completes cmd s next t)
      (fun _ _ => s.mode = Mode.normal) (fun _ => s.mode = Mode.normal) s := by
  cases cmd with
  | goto =>
      unfold stringDone
      rw [wp_bind, wp_getMode]
      split
      · exact completes_hosted (hosted_refl s) rfl
      case isFalse hmode =>
          have hnormal : s.mode = Mode.normal := not_not.mp hmode
          rw [wp_bind]
          apply (keeps_gotoDone str).wp
          · intro _ t ht
            exact ⟨rfl, ht, fun h => absurd hnormal h⟩
          · intro _ _
            exact hnormal
          · intro _
            exact hnormal
  | printString =>
      unfold stringDone
      rw [wp_bind, wp_interfaceMsg, wp_pure]
      exact ⟨rfl, rfl, fun _ => ⟨rfl, fun h => absurd rfl h⟩⟩
  | replaceIgnore => exact completes_hosted (hosted_refl s) rfl
  | replaceDefaultIgnore =>
      unfold stringDone
      dsimp only
      split
      · exact completes_hosted (hosted_refl s) rfl
      · exact wp_completeHost _ _ _ _ rfl
  | replace => exact wp_replaceDone _ _ _ _ str rfl rfl
  | replaceDefault => exact wp_replaceDone _ _ _ _ str rfl rfl
  | replaceDefaultAll =>
      unfold stringDone replaceDefaultAllDone
      rw [wp_bind]
      apply wp_call (wp_replaceDone .replaceDefaultAll .replaceDefaultAll
        .replaceDefaultInsert .replaceDefaultIgnore str rfl rfl)
      intro next t ht
      rw [wp_bind, wp_getMode, wp_ite]
      split
      case isTrue => exact ht
      case isFalse hmode =>
          have hnormal : s.mode = Mode.normal := by
            by_contra h
            have hsame := (ht.2.2 h).1
            rw [State.mode, hsame] at hmode
            exact hmode h
          rw [wp_bind]
          apply (keeps_onHost _).wp
          · intro _ u hu
            refine ⟨ht.1, (congrArg Prod.fst hu).trans ht.2.1, ?_⟩
            intro h
            exact absurd hnormal h
          · intro _ _
            exact hnormal
          · intro _
            exact hnormal
  | loadqreg => exact absurd hqreg (by decide)
  | saveqreg => exact absurd hqreg (by decide)
  | setqregstringNobuilding => exact absurd hqreg (by decide)
  | setqregstringBuilding => exact absurd hqreg (by decide)
  | globPattern => exact wp_completeHost _ _ _ _ rfl
  | scintillaSymbols => exact wp_completeHost _ _ _ _ rfl
  | insertPlain => exact wp_completeHost _ _ _ _ rfl
  | insertIndent => exact wp_completeHost _ _ _ _ rfl
  | changedir => exact wp_completeHost _ _ _ _ rfl
  | globFilename => exact wp_completeHost _ _ _ _ rfl
  | help => exact wp_completeHost _ _ _ _ rfl
  | indirect => exact wp_completeHost _ _ _ _ rfl
  | editFile => exact wp_completeHost _ _ _ _ rfl
  | saveFile => exact wp_completeHost _ _ _ _ rfl
  | readFile => exact wp_completeHost _ _ _ _ rfl
  | search => exact wp_completeHost _ _ _ _ rfl
  | searchAll => exact wp_completeHost _ _ _ _ rfl
  | searchKill => exact wp_completeHost _ _ _ _ rfl
  | searchDelete => exact wp_completeHost _ _ _ _ rfl
  | replaceInsert => exact wp_completeHost _ _ _ _ rfl
  | replaceDefaultInsert => exact wp_completeHost _ _ _ _ rfl
  | execute => exact wp_completeHost _ _ _ _ rfl
  | scintillaLparam => exact wp_completeHost _ _ _ _ rfl

/-- The Q-Register of a string argument is not needed any more. -/
def withoutQReg (cmd : StringCommand) (s : State W Reg) : State W Reg :=
  if cmd.hasQReg then
    s.mapMachine (fun m => { m with expectqreg := none })
  else
    s

@[simp] theorem withoutQReg_mode (cmd : StringCommand) :
    (withoutQReg cmd s).mode = s.mode := by
  unfold withoutQReg
  split <;> rfl

@[simp] theorem withoutQReg_macroPc (cmd : StringCommand) :
    (withoutQReg cmd s).machine.macroPc = s.machine.macroPc := by
  unfold withoutQReg
  split <;> rfl

@[simp] theorem withoutQReg_editor (cmd : StringCommand) :
    (withoutQReg cmd s).editor = s.editor := by
  unfold withoutQReg
  split <;> rfl

theorem wp_qregStringDone (cmd : StringCommand) (str : Bytes)
    (hnext : Syntax.afterString cmd = MainState.start)
    (hqreg : cmd.hasQReg = true) :
    wp (qregStringDone host env cmd str)
      (fun next t =>
        ¬(cmd.hasQReg = true ∧ s.machine.expectqreg = none) ∧
          Completes cmd (withoutQReg cmd s) next t)
      (fun _ _ => s.mode = Mode.normal)
      (fun _ => s.mode = Mode.normal ∨
        cmd.hasQReg = true ∧ s.machine.expectqreg = none) s := by
  unfold qregStringDone expectqregResults
  rw [wp_bind, wp_bind, wp_get]
  cases s.machine.expectqreg with
  | none => exact Or.inr ⟨hqreg, rfl⟩
  | some spec =>
      dsimp only
      rw [wp_pure, wp_bind, wp_expectqregReset, withoutQReg, if_pos hqreg]
      apply wp_mono (wp_completeHost cmd cmd _ str (by rw [hnext]))
      · intro _ _ h
        exact ⟨fun hmissing => absurd hmissing.2 (by simp), h⟩
      · intro _ _ h
        exact h
      · intro _ h
        exact Or.inl h

/-- The callback of every string argument. -/
theorem wp_stringDone_any (cmd : StringCommand) (str : Bytes) :
    wp (stringDone host env cmd str)
      (fun next t =>
        ¬(cmd.hasQReg = true ∧ s.machine.expectqreg = none) ∧
          Completes cmd (withoutQReg cmd s) next t)
      (fun _ _ => s.mode = Mode.normal)
      (fun _ => s.mode = Mode.normal ∨
        cmd.hasQReg = true ∧ s.machine.expectqreg = none) s := by
  cases hqreg : cmd.hasQReg with
  | false =>
      rw [withoutQReg, hqreg]
      apply wp_mono (wp_stringDone cmd str hqreg)
      · intro _ _ h
        exact ⟨fun hmissing => absurd hmissing.1 (by simp), h⟩
      · intro _ _ h
        exact h
      · intro _ h
        exact Or.inl h
  | true =>
      rw [<- hqreg]
      cases cmd <;> first | exact absurd hqreg (by decide) | skip
      case loadqreg => exact wp_qregStringDone _ str rfl rfl
      case saveqreg => exact wp_qregStringDone _ str rfl rfl
      case setqregstringNobuilding => exact wp_qregStringDone _ str rfl rfl
      case setqregstringBuilding => exact wp_qregStringDone _ str rfl rfl

theorem toSyntax_escapeChar (sb : StringBuilding Reg) (chr : Gunichar) :
    (sb.mapCore (fun c => { c with escapeChar := chr })).toSyntax =
      sb.toSyntax := by
  cases sb <;> rfl

theorem wellFormed_escapeChar {sb : StringBuilding Reg} (chr : Gunichar)
    (hwf : sb.WellFormed) :
    (sb.mapCore (fun c => { c with escapeChar := chr })).WellFormed := by
  cases sb <;> exact hwf

/-- The machine ends string building with another escape character. -/
def State.withEscapeChar (chr : Gunichar) (s : State W Reg) : State W Reg :=
  s.mapString (fun e =>
    { e with
      machine := e.machine.mapCore (fun c => { c with escapeChar := chr }) })

@[simp] theorem wp_setEscapeChar (chr : Gunichar)
    {post : Unit -> State W Reg -> Prop}
    {fail : TecoError -> State W Reg -> Prop} {bad : Fault -> Prop} :
    wp (setEscapeChar env chr) post fail bad s <->
      post () (s.withEscapeChar chr) := by
  unfold setEscapeChar
  simp only [wp_zoom, wp_bind, wp_getCore, wp_undoCore, wp_modifyCore]
  exact Iff.rfl

theorem wellFormed_withEscapeChar (chr : Gunichar) (hwf : s.WellFormed) :
    (s.withEscapeChar chr).WellFormed :=
  ⟨wellFormed_escapeChar chr hwf.1, hwf.2⟩

theorem toSyntax_withEscapeChar (chr : Gunichar) :
    (s.withEscapeChar chr).toSyntax =
      { s.toSyntax with escapeChar := chr } := by
  unfold State.toSyntax Machine.toSyntax State.withEscapeChar State.mapString
  simp [toSyntax_escapeChar]

/-- What is left of a string argument. -/
def Syntax.resetString (y : Syntax) (cmd : StringCommand) : Syntax :=
  { y with
    escapeChar := if cmd.last then 0x1B else y.escapeChar
    modifierAt :=
      if cmd.last = false ∧ y.escapeChar = '{'.toNat then true
      else y.modifierAt
    nesting := 1
    stringbuilding :=
      if cmd.stringBuilding then SBSyntax.fresh else y.stringbuilding }

/-- The last part of a reset, which keeps the escape character. -/
theorem wp_resetBuilding (cmd : StringCommand) (len : Nat)
    (hwf : s.WellFormed) :
    wp (do
        modify (State.mapString (fun e => { e with nesting := 1 }))
        if cmd.stringBuilding then
          zoom sbLens (sbReset env)
        else
          pure ()
        undo env (State.mapString (fun e => { e with insertLen := len }))
        modify (State.mapString (fun e => { e with insertLen := 0 })))
      (fun _ t =>
        t.WellFormed ∧
          t.toSyntax =
            { s.toSyntax with
              nesting := 1
              stringbuilding :=
                if cmd.stringBuilding then SBSyntax.fresh
                else s.toSyntax.stringbuilding } ∧
          t.machine.macroPc = s.machine.macroPc ∧ t.mode = s.mode ∧
          t.editor = s.editor ∧ t.machine.expectstring.insertLen = 0)
      (fun _ _ => False) (fun _ => False) s := by
  rw [wp_bind, wp_modify]
  dsimp only
  by_cases hbuilding : cmd.stringBuilding = true
  · rw [if_pos hbuilding, if_pos hbuilding]
    simp only [wp_bind, wp_zoom, wp_undo, wp_modify]
    apply wp_call (wp_resetStringBuilding
      s.machine.expectstring.machine s.editor hwf.1)
    intro _ t ht
    rcases ht with ⟨heditor, hinner, hshape, hescape⟩
    refine ⟨⟨hinner, hwf.2⟩, ?_, rfl, rfl, heditor, rfl⟩
    simp only [State.toSyntax, Machine.toSyntax, State.mapString, sbLens,
      hshape, hescape]
  · rw [if_neg hbuilding, if_neg hbuilding]
    simp only [wp_bind, wp_undo, wp_modify]
    exact ⟨hwf, rfl, rfl, rfl, rfl, rfl⟩

theorem wp_resetString (cmd : StringCommand) (hwf : s.WellFormed) :
    wp (resetString env cmd)
      (fun _ t =>
        t.WellFormed ∧ t.toSyntax = s.toSyntax.resetString cmd ∧
          t.machine.macroPc = s.machine.macroPc ∧ t.mode = s.mode ∧
          t.editor = s.editor ∧ t.machine.expectstring.insertLen = 0)
      (fun _ _ => False) (fun _ => False) s := by
  unfold resetString
  rw [wp_bind, wp_get]
  dsimp only
  rw [wp_bind, wp_undo, wp_bind, wp_modify]
  have hstring : (s.mapString (fun e =>
      { e with string := [] })).toSyntax = s.toSyntax := rfl
  by_cases hlast : cmd.last = true
  · rw [if_pos hlast, wp_bind, wp_setEscapeChar]
    have hwf' := wellFormed_withEscapeChar 0x1B
      (s := s.mapString (fun e => { e with string := [] })) hwf
    apply wp_call (wp_resetBuilding cmd _ hwf')
    intro _ t ht
    rcases ht with ⟨ht, hshape, hkept⟩
    refine ⟨ht, ?_, hkept⟩
    rw [hshape, toSyntax_withEscapeChar, hstring]
    simp [Syntax.resetString, hlast]
  rw [if_neg hlast]
  by_cases hbrace : s.machine.expectstring.machine.core.escapeChar =
      '{'.toNat
  · rw [if_pos hbrace, wp_bind, wp_undoFlags, wp_bind, wp_modify]
    have hbrace' : s.toSyntax.escapeChar = '{'.toNat := hbrace
    have hflags : ((s.mapString (fun e => { e with string := [] })).mapFlags
        (fun f => { f with modifierAt := true })).toSyntax =
      { s.toSyntax with modifierAt := true } := rfl
    have hwf' : ((s.mapString (fun e => { e with string := [] })).mapFlags
        (fun f => { f with modifierAt := true })).WellFormed := hwf
    apply wp_call (wp_resetBuilding cmd _ hwf')
    intro _ t ht
    rcases ht with ⟨ht, hshape, hkept⟩
    refine ⟨ht, ?_, hkept⟩
    rw [hshape, hflags]
    simp [Syntax.resetString, hlast, hbrace']
  · rw [if_neg hbrace]
    have hbrace' : s.toSyntax.escapeChar ≠ '{'.toNat := hbrace
    have hwf' : (s.mapString (fun e =>
        { e with string := [] })).WellFormed := hwf
    apply wp_call (wp_resetBuilding cmd _ hwf')
    intro _ t ht
    rcases ht with ⟨ht, hshape, hkept⟩
    refine ⟨ht, ?_, hkept⟩
    rw [hshape, hstring]
    simp only [Syntax.resetString, hlast, hbrace', and_false, if_false,
      Bool.false_eq_true]

theorem wellFormed_withoutQReg (cmd : StringCommand) (hwf : s.WellFormed) :
    (withoutQReg cmd s).WellFormed := by
  unfold withoutQReg
  split
  · exact wellFormed_reset hwf
  · exact hwf

theorem finishString_eq (cmd : StringCommand) :
    s.toSyntax.finishString cmd =
      if cmd.hasQReg = true ∧ s.machine.expectqreg = none then none
      else
        some (Syntax.afterString cmd,
          (withoutQReg cmd s).toSyntax.resetString cmd) := by
  have hnone : s.toSyntax.qregspec = none <->
      s.machine.expectqreg = none := Option.map_eq_none_iff
  unfold Syntax.finishString
  simp only [hnone]
  split
  · rfl
  · unfold withoutQReg
    cases cmd.hasQReg <;> rfl

/-- The end of a string argument. -/
theorem wp_finishString (cmd : StringCommand) (hwf : s.WellFormed)
    (hprocess : s.mode ≠ Mode.normal -> ProcessOk host env cmd s) :
    wp (finishString host env cmd)
      (fun next t =>
        ProcessOk host env cmd s ∧
          Reads (s.toSyntax.finishString cmd)
            (s.machine.expectstring.insertLen = 0 ∧
              cmd ≠ StringCommand.printString) s next t)
      (fun _ t => Rejects (s.toSyntax.finishString cmd)
        (s.machine.expectstring.insertLen = 0 ∧
          cmd ≠ StringCommand.printString) s t)
      (fun _ => Crashes (s.toSyntax.finishString cmd) s) s := by
  unfold finishString
  rw [wp_bind]
  apply wp_mono (wp_stringProcess cmd)
  · intro _ u hu
    rcases hu with ⟨hok, hplaced, hsame⟩
    have hfixed : u.fixed = s.fixed := congrArg Prod.fst hplaced
    have hmode : u.mode = s.mode := congrArg (fun p => p.2.1) hplaced
    have hpc : u.machine.macroPc = s.machine.macroPc :=
      congrArg (fun p => p.2.2) hplaced
    have hwfu : u.WellFormed := wellFormed_of_fixed hwf hfixed
    have hqreg : u.machine.expectqreg = s.machine.expectqreg :=
      congrArg (fun p : Machine Reg × Bytes => p.1.expectqreg) hfixed
    have hshape : u.toSyntax.finishString cmd =
        s.toSyntax.finishString cmd := by
      rw [toSyntax_of_fixed hfixed]
    rw [wp_bind, wp_get, wp_ensuring]
    apply wp_mono (wp_stringDone_any cmd u.machine.expectstring.string)
    · intro next v hv
      rcases hv with ⟨hmissing, hnext, hdone, hquiet⟩
      have hwfv : v.WellFormed :=
        wellFormed_of_machine (wellFormed_withoutQReg cmd hwfu) hdone
      apply wp_mono (wp_resetString cmd hwfv)
      · intro _ t ht
        rcases ht with ⟨hwft, hreset, hpct, hmodet, heditor, hlen⟩
        refine ⟨hok, hwft, ?_, ?_⟩
        · refine ⟨Syntax.afterString cmd, ?_, hnext.symm⟩
          rw [<- hshape, finishString_eq, if_neg hmissing, hreset,
            toSyntax_of_machine hdone]
        · intro hskip
          rcases hquiet (by simpa [hmode] using hskip) with
            ⟨hmachine, heditorv⟩
          have hmodev : v.mode = s.mode := by
            rw [State.mode, hmachine]
            exact (withoutQReg_mode cmd).trans hmode
          refine ⟨?_, Or.inl ?_, ?_⟩
          · rw [hpct, hmachine, withoutQReg_macroPc, hpc]
          · rw [hmodet, hmodev]
            exact hskip
          · rintro ⟨hzero, hprint⟩
            constructor
            · rw [hlen, hzero]
            · rw [heditor, heditorv hprint, withoutQReg_editor, hsame hzero]
      · intro _ _ h
        exact h.elim
      · intro _ h
        exact h.elim
    · intro _ v hnormal
      apply wp_of_forall
      · intro _ _ h
        rw [<- hmode] at h
        exact absurd hnormal h
      · intro _ _ h
        rw [<- hmode] at h
        exact absurd hnormal h
      · intro _ h
        rw [<- hmode] at h
        exact absurd hnormal h
    · intro _ hbad hskip
      rcases hbad with hnormal | hmissing
      · rw [<- hmode] at hskip
        exact absurd hnormal hskip
      · rw [<- hshape, finishString_eq, if_pos hmissing]
  · intro _ _ hnot hskip
    exact absurd (hprocess hskip) hnot
  · intro _ hnot hskip
    exact absurd (hprocess hskip) hnot

/-!
## The characters of a string
-/

/-- Whether a character ends the string argument that is being read. -/
def Syntax.EndsString (toUpper : Gunichar -> Gunichar) (y : Syntax)
    (chr : Gunichar) : Prop :=
  y.modifierAt = false ∧ y.nesting + y.nestingChange toUpper chr = 0

/-- The machine with another nesting of the string argument. -/
def State.withNesting (nesting : Int) (s : State W Reg) : State W Reg :=
  s.mapString (fun e => { e with nesting := nesting })

@[simp] theorem wp_countNesting (chr : Gunichar)
    {post : Unit -> State W Reg -> Prop}
    {fail : TecoError -> State W Reg -> Prop} {bad : Fault -> Prop} :
    wp (countNesting host env chr) post fail bad s <->
      post () (s.withNesting (s.toSyntax.nesting +
        s.toSyntax.nestingChange host.glib.toUpper chr)) := by
  unfold countNesting
  have hchange : s.toSyntax.nestingChange host.glib.toUpper chr =
      if s.machine.expectstring.machine.core.current ≠ SBState.start then 0
      else if s.machine.expectstring.machine.core.escapeChar = '{'.toNat then
        if chr = '{'.toNat then 1 else if chr = '}'.toNat then -1 else 0
      else if host.glib.toUpper chr =
          s.machine.expectstring.machine.core.escapeChar then -1
      else 0 := by
    unfold Syntax.nestingChange
    rw [show s.toSyntax.stringbuilding.current =
      s.machine.expectstring.machine.core.current from
      toSyntax_current s.machine.expectstring.machine]
    rfl
  rw [wp_bind, wp_get]
  dsimp only
  rw [<- hchange]
  generalize s.toSyntax.nestingChange host.glib.toUpper chr = change
  rw [wp_ite]
  split
  case isTrue hzero =>
      have hsame : s.withNesting (s.toSyntax.nesting + change) = s := by
        rw [hzero, Int.add_zero]
        rfl
      rw [wp_pure, hsame]
  case isFalse =>
      simp only [wp_bind, wp_undo, wp_modify]
      exact Iff.rfl

/-- A character inside of a string argument. -/
def Syntax.accumulate (y : Syntax) (cmd : StringCommand) (chr : Gunichar) :
    Option (MainState × Syntax) :=
  if cmd.stringBuilding then
    (y.stringbuilding.step chr).map (fun inner =>
      (MainState.expectstring cmd, { y with stringbuilding := inner }))
  else
    some (MainState.expectstring cmd, y)

theorem wp_accumulateString (cmd : StringCommand) (chr : Gunichar)
    (hwf : s.WellFormed) :
    wp (accumulateString host env cmd chr)
      (fun next t => Reads (s.toSyntax.accumulate cmd chr) True s next t)
      (fun _ t => Rejects (s.toSyntax.accumulate cmd chr) True s t)
      (fun _ => Crashes (s.toSyntax.accumulate cmd chr) s) s := by
  unfold accumulateString
  rw [wp_bind, wp_get]
  dsimp only
  simp only [wp_ite, wp_bind, wp_undo, wp_pure, wp_modify, wp_get, ite_self,
    decide_eq_true_eq, wp_zoom]
  by_cases hbuilding : cmd.stringBuilding = true
  · rw [if_pos hbuilding]
    have hinput : wp (sbInputOf host env chr
        s.machine.expectstring.machine (decide (s.mode = Mode.normal)))
          _ _ _ _ :=
      wp_sbInputOf chr s.machine.expectstring.machine
        (decide (s.mode = Mode.normal)) s.editor hwf.1
    apply wp_mono hinput
    · intro text t ht
      rcases ht with ⟨hinner, hstep, hescape, heditor⟩
      have hnext : s.toSyntax.accumulate cmd chr =
          some (MainState.expectstring cmd,
            (sbLens.set t s).toSyntax) := by
        unfold Syntax.accumulate
        rw [if_pos hbuilding]
        rw [show s.toSyntax.stringbuilding.step chr = some t.1.toSyntax from
          hstep]
        simp [State.toSyntax, Machine.toSyntax, sbLens, hescape]
      have hwft : (sbLens.set t s).WellFormed := ⟨hinner, hwf.2⟩
      split
      case isTrue hmode =>
          exact ⟨hwft, ⟨_, hnext, rfl⟩, fun h => absurd hmode h⟩
      case isFalse hmode =>
          refine ⟨hwft, ⟨_, hnext, rfl⟩,
            fun _ => ⟨rfl, Or.inl hmode, fun _ => ⟨?_, ?_⟩⟩⟩
          · simp [State.mapString, sbLens]
          · exact heditor (by simpa using hmode)
    · intro _ t ht hmode
      rcases ht (by simpa using hmode) with ⟨hnone, heditor⟩
      refine ⟨?_, fun _ => heditor⟩
      unfold Syntax.accumulate
      rw [if_pos hbuilding]
      rw [show s.toSyntax.stringbuilding.step chr = none from hnone]
      rfl
    · intro _ hmode h
      exact absurd (by simpa using hmode) h
  · rw [if_neg hbuilding]
    have hnext : s.toSyntax.accumulate cmd chr =
        some (MainState.expectstring cmd, s.toSyntax) := by
      unfold Syntax.accumulate
      rw [if_neg hbuilding]
    split
    case isTrue hmode =>
        exact ⟨hwf, ⟨_, hnext, rfl⟩, fun h => absurd hmode h⟩
    case isFalse hmode =>
        refine ⟨hwf, ⟨_, hnext, rfl⟩,
          fun _ => ⟨rfl, Or.inl hmode, fun _ => ⟨?_, rfl⟩⟩⟩
        simp [State.mapString]

theorem expectstringInput_eq {toUpper : Gunichar -> Gunichar} {y : Syntax}
    {cmd : StringCommand} {chr : Gunichar} (hat : y.modifierAt = false) :
    y.expectstringInput toUpper cmd chr =
      if y.nesting + y.nestingChange toUpper chr = 0 then
        { y with
          nesting := y.nesting + y.nestingChange toUpper chr }.finishString
            cmd
      else
        { y with
          nesting := y.nesting + y.nestingChange toUpper chr }.accumulate
            cmd chr := by
  unfold Syntax.expectstringInput
  rw [if_neg (by simp [hat]), if_neg (by simp [hat])]
  rfl

/-- A state with a string argument. -/
theorem wp_expectstringInput (cmd : StringCommand) (chr : Gunichar)
    (hwf : s.WellFormed)
    (hprocess : s.mode ≠ Mode.normal ->
      s.toSyntax.EndsString host.glib.toUpper chr ->
      ProcessOk host env cmd s) :
    wp (expectstringInput host env cmd chr)
      (fun next t =>
        (s.toSyntax.EndsString host.glib.toUpper chr ->
          ProcessOk host env cmd s) ∧
          Reads (s.toSyntax.expectstringInput host.glib.toUpper cmd chr)
            (s.machine.expectstring.insertLen = 0 ∧
              ¬(cmd = StringCommand.printString ∧
                s.toSyntax.EndsString host.glib.toUpper chr)) s next t)
      (fun _ t => Rejects
        (s.toSyntax.expectstringInput host.glib.toUpper cmd chr)
        (s.machine.expectstring.insertLen = 0 ∧
          ¬(cmd = StringCommand.printString ∧
            s.toSyntax.EndsString host.glib.toUpper chr)) s t)
      (fun _ => Crashes
        (s.toSyntax.expectstringInput host.glib.toUpper cmd chr) s) s := by
  unfold expectstringInput
  rw [wp_bind, wp_get]
  cases hat : s.machine.flags.modifierAt with
  | true =>
      have hat' : s.toSyntax.modifierAt = true := hat
      unfold Syntax.expectstringInput
      have hends : ¬s.toSyntax.EndsString host.glib.toUpper chr := by
        intro h
        simp [Syntax.EndsString, hat'] at h
      by_cases hnoop : isNoop chr = true
      · rw [if_pos ⟨rfl, hnoop⟩, if_pos ⟨hat', hnoop⟩]
        exact ⟨fun h => absurd h hends, reads_same hwf rfl rfl⟩
      · rw [if_neg (fun h => hnoop h.2), if_neg (fun h => hnoop h.2),
          if_pos hat', wp_bind, wp_evalAt, hat]
        simp only [if_true, wp_bind, wp_setEscapeChar, wp_pure]
        refine ⟨fun h => absurd h hends,
          wellFormed_withEscapeChar _ hwf, ⟨_, ?_, rfl⟩,
          fun hmode => ⟨rfl, Or.inl hmode, fun _ => ⟨rfl, rfl⟩⟩⟩
        rw [toSyntax_withEscapeChar]
        rfl
  | false =>
      have hat' : s.toSyntax.modifierAt = false := hat
      have hsame : s.mapFlags (fun f => { f with modifierAt := false }) =
          s := by
        simp only [State.mapFlags, <- hat]
      rw [if_neg (by simp), wp_bind, wp_evalAt, hat, hsame,
        expectstringInput_eq hat']
      simp only [Bool.false_eq_true, if_false]
      rw [wp_bind, wp_countNesting, wp_bind, wp_get]
      generalize hnesting : s.toSyntax.nesting +
        s.toSyntax.nestingChange host.glib.toUpper chr = nesting
      have hends : s.toSyntax.EndsString host.glib.toUpper chr <->
          nesting = 0 := by
        rw [<- hnesting]
        simp [Syntax.EndsString, hat']
      have hwf' : (s.withNesting nesting).WellFormed := hwf
      have hok (h : ProcessOk host env cmd s) :
          ProcessOk host env cmd (s.withNesting nesting) :=
        processOk_congr (s := s) (t := s.withNesting nesting) rfl rfl rfl rfl
          h
      have hok' (h : ProcessOk host env cmd (s.withNesting nesting)) :
          ProcessOk host env cmd s :=
        processOk_congr (s := s.withNesting nesting) (t := s) rfl rfl rfl rfl
          h
      rw [wp_ite]
      by_cases hzero : nesting = 0
      · rw [if_pos (show (s.withNesting nesting).machine.expectstring.nesting
          = 0 from hzero), if_pos hzero]
        apply wp_mono (wp_finishString cmd hwf' (fun hmode =>
          hok (hprocess hmode (hends.mpr hzero))))
        · intro next t ht
          refine ⟨fun _ => hok' ht.1, ht.2.1, ht.2.2.1, ?_⟩
          intro hmode
          rcases ht.2.2.2 hmode with ⟨hpc, hleave, hquiet⟩
          refine ⟨hpc, hleave, fun h => hquiet ⟨h.1, ?_⟩⟩
          intro hprint
          exact h.2 ⟨hprint, hends.mpr hzero⟩
        · intro _ t ht hmode
          rcases ht hmode with ⟨hnone, hquiet⟩
          refine ⟨hnone, fun h => hquiet ⟨h.1, ?_⟩⟩
          intro hprint
          exact h.2 ⟨hprint, hends.mpr hzero⟩
        · intro _ h
          exact h
      · rw [if_neg (show ¬(s.withNesting nesting).machine.expectstring.nesting
          = 0 from hzero), if_neg hzero]
        apply wp_mono (wp_accumulateString cmd chr hwf')
        · intro next t ht
          refine ⟨fun h => absurd (hends.mp h) hzero, ht.1, ht.2.1, ?_⟩
          intro hmode
          rcases ht.2.2 hmode with ⟨hpc, hleave, hquiet⟩
          exact ⟨hpc, hleave, fun _ => hquiet trivial⟩
        · intro _ t ht hmode
          rcases ht hmode with ⟨hnone, hquiet⟩
          exact ⟨hnone, fun _ => hquiet trivial⟩
        · intro _ h
          exact h

end Parser
end SciTECO
