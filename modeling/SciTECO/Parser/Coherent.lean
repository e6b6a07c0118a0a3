import SciTECO.Parser.SkipFrame

/-!
# Between the characters of a macro

A label is looked for in its own parse-only mode only, and a part of a string
waits in normal mode and within the string argument only.
-/

namespace SciTECO
namespace Parser

open Undoable
open QReg (Table)

variable {W Reg : Type} {host : Host W Reg} {env : Env}

/-- What holds of a machine between two characters. -/
structure Coherent (s : State W Reg) : Prop where
  wellFormed : s.WellFormed
  label : s.gotoSkipLabel ≠ [] -> s.mode = Mode.parseOnlyGoto
  skipped : s.mode ≠ Mode.normal -> s.machine.expectstring.insertLen = 0
  outside : (forall cmd, s.machine.current ≠ MainState.expectstring cmd) ->
    s.machine.expectstring.insertLen = 0

/-- A new machine. -/
theorem coherent_init {s : State W Reg} (loopStackFp codepage : Nat)
    (hmachine : s.machine = Machine.init loopStackFp codepage)
    (hlabel : s.gotoSkipLabel = []) : Coherent s := by
  constructor
  · rw [State.WellFormed, hmachine]
    refine ⟨⟨rfl, fun _ => rfl⟩, ?_⟩
    intro spec hspec
    cases hspec
  · intro h
    exact absurd hlabel h
  · rw [hmachine]
    exact fun _ => rfl
  · rw [hmachine]
    exact fun _ => rfl

/-!
## Skipping
-/

theorem step_goto {k : Skip} (current : MainState) (chr : Gunichar)
    (h : k.mode = Mode.parseOnlyGoto) : k.step current chr = k := by
  have hcommand : k.command chr = k := by
    unfold Skip.command
    rw [h]
    split
    · rfl
    · rfl
    · exact if_neg (by simp)
    · exact if_neg (by simp)
    · rfl
  unfold Skip.step
  rw [hcommand]
  split
  · rfl
  · apply if_neg
    rw [h]
    simp

theorem step_label (k : Skip) (current : MainState) (chr : Gunichar) :
    (k.step current chr).label = k.label ∧
      (k.step current chr).insertLen = k.insertLen := by
  have hleave : k.leave.label = k.label ∧ k.leave.insertLen = k.insertLen := by
    unfold Skip.leave
    split
    · exact ⟨rfl, rfl⟩
    · exact ⟨rfl, rfl⟩
  have hif {c : Prop} [Decidable c] {k' : Skip}
      (h : k'.label = k.label ∧ k'.insertLen = k.insertLen) :
      (if c then k' else k).label = k.label ∧
        (if c then k' else k).insertLen = k.insertLen := by
    split
    · exact h
    · exact ⟨rfl, rfl⟩
  unfold Skip.step
  split
  · unfold Skip.command
    split
    · exact hif ⟨rfl, rfl⟩
    · exact hif hleave
    · exact hif ⟨rfl, rfl⟩
    · exact hif hleave
    · exact ⟨rfl, rfl⟩
  · exact hif ⟨rfl, rfl⟩

/-!
## Executing
-/

/-- What waits to be done. -/
def State.waiting (s : State W Reg) : Bytes × Nat :=
  (s.gotoSkipLabel, s.machine.expectstring.insertLen)

theorem waiting_of_skip {α : Type} {m : Exec (State W Reg) α}
    (h : Keeps State.skip m) : Keeps State.waiting m :=
  h.comp (fun k => (k.label, k.insertLen))

theorem waiting_of_fixed {α : Type} {m : Exec (State W Reg) α}
    (h : Keeps State.fixed m) : Keeps State.waiting m :=
  h.comp (fun k => (k.2, k.1.expectstring.insertLen))

theorem waiting_setMode (mode : Mode) :
    Keeps State.waiting (setMode env mode : Exec (State W Reg) Unit) :=
  waiting_of_fixed (keeps_setMode mode)

theorem waiting_addNestLevel (change : Int) :
    Keeps State.waiting
      (addNestLevel env change : Exec (State W Reg) Unit) := by
  apply Keeps.bind Keeps.get
  intro s
  apply Keeps.bind (keeps_undo _)
  intro _
  exact Keeps.modify (fun _ => rfl)

theorem waiting_unmodified {action : Exec (State W Reg) Unit}
    (chr : Gunichar) (h : Keeps State.waiting action) :
    Keeps State.waiting (unmodified chr action) := by
  apply Keeps.bind Keeps.get
  intro s
  apply Keeps.ite (Keeps.throw _)
  apply Keeps.bind h
  intro _
  exact Keeps.pure _

theorem waiting_condElse :
    Keeps State.waiting (condElse env : Exec (State W Reg) Unit) := by
  have hmode (mode : Mode) : Keeps State.waiting
      (modify (State.mapFlags (fun f => { f with mode := mode })) :
        Exec (State W Reg) Unit) := Keeps.modify (fun _ => rfl)
  apply Keeps.bind Keeps.get
  intro s
  apply Keeps.bind (waiting_of_skip keepsSkip_undoFlags)
  intro _
  exact Keeps.ite (hmode _) (Keeps.ite (hmode _) (Keeps.pure ()))

theorem waiting_condEnd :
    Keeps State.waiting (condEnd env : Exec (State W Reg) Unit) := by
  apply Keeps.bind Keeps.get
  intro s
  apply Keeps.ite
  · exact Keeps.ite (waiting_setMode _) (waiting_addNestLevel _)
  · exact Keeps.pure ()

theorem waiting_skipLoopOpen :
    Keeps State.waiting
      (skipLoopOpen env : Exec (State W Reg) MainState) := by
  apply Keeps.bind (waiting_addNestLevel _)
  intro _
  exact Keeps.pure _

theorem waiting_skipLoopClose :
    Keeps State.waiting
      (skipLoopClose env : Exec (State W Reg) MainState) := by
  apply Keeps.bind Keeps.get
  intro s
  apply Keeps.ite
  · apply Keeps.bind (waiting_setMode _)
    intro _
    exact Keeps.pure _
  · apply Keeps.bind (waiting_addNestLevel _)
    intro _
    exact Keeps.pure _

section Commands

variable [DecidableEq Reg]

theorem waiting_transitionInput (transitions : Char -> Option Transition)
    (chr : Gunichar) :
    Keeps State.waiting (transitionInput host env transitions chr) := by
  apply Keeps.bind Keeps.get
  intro s
  split
  · exact Keeps.throw _
  · apply Keeps.ite (Keeps.throw _)
    split
    · apply Keeps.ite
      · apply Keeps.bind (waiting_of_fixed (keeps_runCallback _))
        intro _
        exact Keeps.pure _
      · exact Keeps.pure _
    · exact Keeps.pure _

theorem waiting_startInput (chr : Gunichar) :
    Keeps State.waiting (startInput host env chr) := by
  have hword (cmd : Bool -> EditorCommand) :
      Keeps State.waiting (wordCommand host env cmd) :=
    waiting_of_skip (keepsSkip_wordCommand cmd)
  apply Keeps.bind Keeps.get
  intro s
  apply Keeps.ite (waiting_unmodified chr (Keeps.pure ()))
  apply Keeps.ite
    (waiting_unmodified chr (waiting_of_skip (keepsSkip_digit chr)))
  split
  · exact Keeps.ite (Keeps.pure _) (waiting_transitionInput _ _)
  · apply Keeps.ite (Keeps.throw _)
    exact Keeps.ite waiting_skipLoopOpen (waiting_transitionInput _ _)
  · apply Keeps.ite (Keeps.throw _)
    exact Keeps.ite waiting_skipLoopClose (waiting_transitionInput _ _)
  · exact waiting_unmodified chr waiting_condElse
  · exact waiting_unmodified chr waiting_condEnd
  · exact hword _
  · exact hword _
  · exact hword _
  · exact hword _
  · exact hword _
  · exact hword _
  · exact hword _
  · exact hword _
  · exact waiting_of_skip (keepsSkip_atModifier chr)
  · exact waiting_of_skip (keepsSkip_colonModifier chr)
  · exact Keeps.ite (waiting_transitionInput _ _)
      (waiting_transitionInput _ _)

omit [DecidableEq Reg] in
theorem waiting_skippedCondition (chr : Gunichar) :
    Keeps State.waiting
      (match condition host chr 0 0 with
        | none => throw (invalidConditional chr)
        | some _ => pure MainState.start :
        Exec (State W Reg) MainState) := by
  split
  · exact Keeps.throw _
  · exact Keeps.pure _

theorem waiting_condcommandInput (chr : Gunichar) :
    Keeps State.waiting (condcommandInput host env chr) := by
  apply Keeps.bind Keeps.get
  intro s
  apply Keeps.ite
  · apply Keeps.bind (waiting_of_fixed (keeps_condValue chr))
    intro value
    apply Keeps.bind Keeps.get
    intro t
    split
    · exact Keeps.throw _
    · exact Keeps.pure _
    · apply Keeps.bind (waiting_setMode _)
      intro _
      exact Keeps.pure _
  · apply Keeps.ite
    · exact Keeps.bind (waiting_addNestLevel _)
        (fun _ => waiting_skippedCondition chr)
    · exact waiting_skippedCondition chr

theorem waiting_ctlcControlInput (chr : Gunichar) :
    Keeps State.waiting (ctlcControlInput host env chr) := by
  apply Keeps.bind Keeps.get
  intro s
  apply Keeps.ite
  · apply Keeps.ite (Keeps.pure _)
    apply Keeps.ite (Keeps.throw _)
    apply Keeps.bind (waiting_of_skip (keepsSkip_onExpr _))
    intro _
    exact Keeps.throw _
  · apply Keeps.ite
    · apply Keeps.bind (waiting_of_fixed keeps_tecoReturn)
      intro _
      exact Keeps.pure _
    · exact waiting_transitionInput _ _

theorem waiting_thenStart {α : Type} {m : Exec (State W Reg) α}
    (chr : Gunichar) (h : Keeps State.waiting m) :
    Keeps State.waiting (m >>= fun _ => startInput host env chr) :=
  Keeps.bind h (fun _ => waiting_startInput chr)

/-- States which collect no string and no label. -/
theorem waiting_stateInput {current : MainState} (chr : Gunichar)
    (hlabel : current ≠ MainState.label)
    (hstring : forall cmd, current ≠ MainState.expectstring cmd) :
    Keeps State.waiting (stateInput host env current chr) := by
  have hprint (radix : Nat) : Keeps State.waiting
      (do printDeferred env radix; startInput host env chr) :=
    waiting_thenStart chr (waiting_of_fixed (keeps_printDeferred radix))
  cases current with
  | start => exact waiting_startInput chr
  | fcommand => exact waiting_transitionInput _ _
  | condcommand => exact waiting_condcommandInput chr
  | control => exact waiting_transitionInput _ _
  | ascii =>
      apply Keeps.bind Keeps.get
      intro s
      apply Keeps.ite
      · apply Keeps.bind (waiting_of_skip (keepsSkip_onExpr _))
        intro _
        exact Keeps.pure _
      · exact Keeps.pure _
  | escape =>
      apply Keeps.bind Keeps.get
      intro s
      apply Keeps.ite
      · apply Keeps.ite
        · apply Keeps.bind (waiting_of_fixed keeps_tecoReturn)
          intro _
          exact Keeps.pure _
        · exact Keeps.pure _
      · apply Keeps.ite
        · exact waiting_thenStart chr (waiting_of_skip (keepsSkip_onExpr _))
        · exact waiting_startInput chr
  | ctlc =>
      apply Keeps.bind Keeps.get
      intro s
      apply Keeps.ite (waiting_ctlcControlInput _)
      apply Keeps.ite (Keeps.pure _)
      apply Keeps.ite
      · apply Keeps.bind (waiting_of_fixed keeps_tecoReturn)
        intro _
        exact Keeps.pure _
      · exact waiting_startInput chr
  | ctlcControl => exact waiting_ctlcControlInput chr
  | ecommand => exact waiting_transitionInput _ _
  | label => exact absurd rfl hlabel
  | blockcomment => exact Keeps.pure _
  | blockcommentStar => exact Keeps.pure _
  | eolcomment => exact Keeps.pure _
  | printDecimal => exact Keeps.ite (Keeps.pure _) (hprint 10)
  | printOctal =>
      apply Keeps.bind Keeps.get
      intro s
      apply Keeps.ite
      · apply Keeps.ite
        · exact Keeps.bind (waiting_of_fixed (keeps_print 16)) (fun _ =>
            Keeps.bind (waiting_of_skip (keepsSkip_onExpr _))
              (fun _ => Keeps.pure _))
        · exact Keeps.pure _
      · exact hprint 8
  | expectqreg cmd =>
      exact waiting_of_skip (keepsSkip_expectqregInput cmd chr)
  | expectstring cmd => exact absurd rfl (hstring cmd)

end Commands

/-!
## String arguments
-/

/-- A label is looked for in the mode for it. -/
def State.SearchesOnly (s : State W Reg) : Prop :=
  s.gotoSkipLabel ≠ [] -> s.mode = Mode.parseOnlyGoto

theorem wp_gotoLabel_search {s : State W Reg} (label : Bytes)
    (colonModified : Bool) (h : s.gotoSkipLabel = []) :
    wp (gotoLabel env label colonModified) (fun _ t => t.SearchesOnly)
      (fun _ _ => True) (fun _ => True) s := by
  unfold gotoLabel
  rw [wp_bind, wp_get]
  split
  · exact fun hsearch => absurd h hsearch
  · simp only [wp_ite, wp_pure, wp_throw, wp_fault, wp_bind, wp_emit,
      wp_modify, wp_setMode]
    split
    · split
      · exact fun hsearch => absurd h hsearch
      · trivial
    · split
      · trivial
      · exact fun _ => rfl

theorem wp_gotoDone_search {s : State W Reg} (str : Bytes)
    (h : s.gotoSkipLabel = []) :
    wp (gotoDone env str) (fun _ t => t.SearchesOnly) (fun _ _ => True)
      (fun _ => True) s := by
  unfold gotoDone
  rw [wp_ite]
  split
  · trivial
  · rw [wp_bind]
    apply wp_call (keepsSkip_onExpr _ s)
    intro value t ht
    rw [wp_bind]
    apply wp_call (keepsSkip_evalColon t)
    intro colon u hu
    have hlabel : u.gotoSkipLabel = [] := by
      have := congrArg Skip.label (hu.trans ht)
      exact this.trans h
    dsimp only
    rw [wp_ite]
    split
    · exact fun hsearch => absurd hlabel hsearch
    · exact wp_gotoLabel_search _ _ hlabel

theorem wp_stringDone_search {s : State W Reg} (cmd : StringCommand)
    (str : Bytes) (h : s.gotoSkipLabel = []) :
    wp (stringDone host env cmd str) (fun _ t => t.SearchesOnly)
      (fun _ _ => True) (fun _ => True) s := by
  by_cases hcmd : cmd = StringCommand.goto
  · rw [hcmd]
    unfold stringDone
    rw [wp_bind, wp_getMode, wp_ite]
    split
    · exact fun hsearch => absurd h hsearch
    · rw [wp_bind]
      apply wp_call (wp_gotoDone_search str h)
      intro _ t ht
      exact ht
  · apply wp_call (keepsSkip_stringDone str hcmd s)
    intro _ t ht hsearch
    exact absurd ((congrArg Skip.label ht).trans h) hsearch

/-- At the end of a string nothing waits. -/
theorem wp_finishString_search {s : State W Reg} (cmd : StringCommand)
    (h : s.gotoSkipLabel = []) :
    wp (finishString host env cmd)
      (fun _ t => t.SearchesOnly ∧ t.machine.expectstring.insertLen = 0)
      (fun _ _ => True) (fun _ => True) s := by
  unfold finishString
  rw [wp_bind]
  apply wp_call (keepsSkip_stringProcess cmd s)
  intro _ t ht
  have hlabel : t.gotoSkipLabel = [] := (congrArg Skip.label ht).trans h
  rw [wp_bind, wp_get, wp_ensuring]
  apply wp_mono (wp_stringDone_search cmd _ hlabel)
  · intro _ u hu
    apply wp_call (clearsSkip_resetString cmd u)
    intro _ v hv
    have hmode : v.mode = u.mode := congrArg Skip.mode hv
    have hsearch : v.gotoSkipLabel = u.gotoSkipLabel := congrArg Skip.label hv
    refine ⟨?_, congrArg Skip.insertLen hv⟩
    unfold State.SearchesOnly
    rw [hmode, hsearch]
    exact hu
  · intro _ _ _
    apply wp_of_forall
    · intro _ _
      trivial
    · intro _ _
      trivial
    · intro _
      trivial
  · intro _ hbad
    exact hbad

/-- A character of a string which is not the last one. -/
structure Collects (cmd : StringCommand) (s t : State W Reg)
    (next : MainState) : Prop where
  next : next = MainState.expectstring cmd
  label : t.gotoSkipLabel = s.gotoSkipLabel
  mode : t.mode = s.mode

theorem collects_of_skip {cmd : StringCommand} {s t : State W Reg}
    (h : t.skip = s.skip) : Collects cmd s t (MainState.expectstring cmd) :=
  ⟨rfl, congrArg Skip.label h, congrArg Skip.mode h⟩

theorem wp_accumulateString_search {s : State W Reg} (cmd : StringCommand)
    (chr : Gunichar) :
    wp (accumulateString host env cmd chr)
      (fun next t => Collects cmd s t next)
      (fun _ _ => True) (fun _ => True) s := by
  unfold accumulateString
  rw [wp_bind, wp_get]
  dsimp only
  simp only [wp_ite, wp_bind, wp_undo, wp_pure, wp_modify, wp_get, ite_self,
    decide_eq_true_eq, wp_zoom]
  split
  · apply wp_of_forall
    · intro _ t
      split
      · exact ⟨rfl, rfl, rfl⟩
      · exact ⟨rfl, rfl, rfl⟩
    · intro _ _
      trivial
    · intro _
      trivial
  · split
    · exact ⟨rfl, rfl, rfl⟩
    · exact ⟨rfl, rfl, rfl⟩

theorem wp_expectstringInput_search {s : State W Reg} (cmd : StringCommand)
    (chr : Gunichar) (h : s.gotoSkipLabel = []) :
    wp (expectstringInput host env cmd chr)
      (fun next t => Collects cmd s t next ∨
        t.SearchesOnly ∧ t.machine.expectstring.insertLen = 0)
      (fun _ _ => True) (fun _ => True) s := by
  unfold expectstringInput
  rw [wp_bind, wp_get, wp_ite]
  split
  · exact Or.inl ⟨rfl, rfl, rfl⟩
  · rw [wp_bind]
    apply wp_call (keepsSkip_evalAt s)
    intro modifierAt t ht
    rw [wp_ite]
    split
    · rw [wp_bind]
      apply wp_call (keepsSkip_setEscapeChar _ t)
      intro _ u hu
      exact Or.inl (collects_of_skip (hu.trans ht))
    · rw [wp_bind]
      apply wp_call (keepsSkip_countNesting chr t)
      intro _ u hu
      have hsame := hu.trans ht
      rw [wp_bind, wp_get, wp_ite]
      split
      · apply wp_call (wp_finishString_search cmd
          ((congrArg Skip.label hsame).trans h))
        intro _ v hv
        exact Or.inr hv
      · apply wp_call (wp_accumulateString_search cmd chr)
        intro next v hv
        left
        constructor
        · exact hv.next
        · exact hv.label.trans (congrArg Skip.label hsame)
        · exact hv.mode.trans (congrArg Skip.mode hsame)

/-!
## All states
-/

theorem enter_current {y z : Syntax} {next : MainState}
    (h : y.enter env next = some z) : z.current = next.normalize := by
  unfold Syntax.enter at h
  split at h
  case isTrue hsame =>
      cases h
      exact hsame.symm
  case isFalse =>
      unfold Syntax.initial at h
      split at h
      · split at h
        · cases h
        · cases h
          rfl
      · cases h
        rfl
      · cases h
        rfl
      · cases h
        rfl

theorem normalize_expectstring_cases {current : MainState}
    {cmd : StringCommand}
    (h : current.normalize = (MainState.expectstring cmd).normalize) :
    exists cmd', current = MainState.expectstring cmd' := by
  rw [normalize_expectstring] at h
  cases current with
  | expectstring cmd' => exact ⟨cmd', rfl⟩
  | _ => simp [MainState.normalize] at h

variable [DecidableEq Reg]

/-- In normal mode a string is collected, or nothing waits. -/
theorem wp_stateInput_search {s : State W Reg} (chr : Gunichar)
    (h : Coherent s) (hmode : s.mode = Mode.normal) :
    wp (stateInput host env s.machine.current chr)
      (fun next t => (exists cmd, Collects cmd s t next) ∨
        t.SearchesOnly ∧ t.machine.expectstring.insertLen = 0)
      (fun _ _ => True) (fun _ => True) s := by
  have hlabel : s.gotoSkipLabel = [] := by
    by_contra hsearch
    have hgoto := h.label hsearch
    rw [hmode] at hgoto
    cases hgoto
  have hkept {t : State W Reg} (hzero : s.machine.expectstring.insertLen = 0)
      (ht : t.waiting = s.waiting) :
      t.SearchesOnly ∧ t.machine.expectstring.insertLen = 0 := by
    refine ⟨?_, (congrArg Prod.snd ht).trans hzero⟩
    intro hsearch
    exact absurd ((congrArg Prod.fst ht).trans hlabel) hsearch
  by_cases hstring : exists cmd, s.machine.current =
      MainState.expectstring cmd
  · rcases hstring with ⟨cmd, hcmd⟩
    rw [hcmd]
    apply wp_call (wp_expectstringInput_search cmd chr hlabel)
    intro next t ht
    rcases ht with hcollects | hdone
    · exact Or.inl ⟨cmd, hcollects⟩
    · exact Or.inr hdone
  · have hne (cmd : StringCommand) :
        s.machine.current ≠ MainState.expectstring cmd :=
      fun hcmd => hstring ⟨cmd, hcmd⟩
    have hzero := h.outside hne
    by_cases hcurrent : s.machine.current = MainState.label
    · rw [hcurrent]
      apply wp_call (wp_labelInput_skip chr)
      intro _ t ht
      rcases ht with hsame | ⟨hsearch, _⟩
      · exact Or.inr (hkept hzero
          (congrArg (fun k => (k.label, k.insertLen)) hsame))
      · exact absurd hlabel hsearch
    · apply wp_call (waiting_stateInput chr hcurrent hne s)
      intro _ t ht
      exact Or.inr (hkept hzero ht)

theorem coherent_normal {s : State W Reg} (chr : Gunichar) (h : Coherent s)
    (hmode : s.mode = Mode.normal) :
    wp (machineInput host env chr) (fun _ t => Coherent t)
      (fun _ _ => True) (fun _ => True) s := by
  unfold machineInput
  rw [wp_bind, wp_get, wp_bind]
  have hreads : wp (stateInput host env s.machine.current chr)
      (fun _ u => u.WellFormed) (fun _ _ => True) (fun _ => True) s := by
    apply wp_mono (wp_stateInput chr h.wellFormed
      (fun hskip => absurd hmode hskip))
    · intro _ u hu
      exact hu.2.1
    · intro _ _ _
      trivial
    · intro _ _
      trivial
  apply wp_call_and hreads (wp_stateInput_search chr h hmode)
  intro next u hwf hu
  have henter : wp (enterState host env next)
      (fun _ t => t.WellFormed ∧
        u.toSyntax.enter env next = some t.toSyntax)
      (fun _ _ => True) (fun _ => True) u := by
    apply wp_mono (wp_enterState next hwf rfl)
    · intro _ t ht
      exact ⟨ht.1, ht.2.1⟩
    · intro _ _ _
      trivial
    · intro _ _
      trivial
  apply wp_call_and henter (keepsSkip_enterState next u)
  rintro _ t ⟨htwf, hshape⟩ hskip
  have htmode : t.mode = u.mode := congrArg Skip.mode hskip
  have htlabel : t.gotoSkipLabel = u.gotoSkipLabel := congrArg Skip.label hskip
  have htlen : t.machine.expectstring.insertLen =
      u.machine.expectstring.insertLen := congrArg Skip.insertLen hskip
  rcases hu with ⟨cmd, hcollects⟩ | ⟨hsearch, hzero⟩
  · have hnormal : t.mode = Mode.normal :=
      (htmode.trans hcollects.mode).trans hmode
    refine ⟨htwf, ?_, fun hskips => absurd hnormal hskips, ?_⟩
    · intro hlabel
      rw [htlabel, hcollects.label] at hlabel
      have hgoto := h.label hlabel
      rw [hmode] at hgoto
      cases hgoto
    · intro hne
      have hcurrent := enter_current hshape
      rw [hcollects.next] at hcurrent
      rcases normalize_expectstring_cases hcurrent with ⟨cmd', hcmd'⟩
      exact absurd hcmd' (hne cmd')
  · refine ⟨htwf, ?_, fun _ => htlen.trans hzero, fun _ => htlen.trans hzero⟩
    intro hlabel
    rw [htlabel] at hlabel
    exact htmode.trans (hsearch hlabel)

/-- What a character leaves behind. -/
theorem coherent_machineInput {s : State W Reg} (chr : Gunichar)
    (h : Coherent s) :
    wp (machineInput host env chr) (fun _ t => Coherent t)
      (fun _ _ => True) (fun _ => True) s := by
  have hprocess : s.mode ≠ Mode.normal -> Processes host env s chr :=
    fun hmode => processes_of_insertLen (h.skipped hmode)
  have hwf : wp (machineInput host env chr) (fun _ t => t.WellFormed)
      (fun _ _ => True) (fun _ => True) s := by
    apply wp_mono (wp_machineInput chr h.wellFormed hprocess)
    · intro _ t ht
      exact ht.1
    · intro _ _ _
      trivial
    · intro _ _
      trivial
  by_cases hmode : s.mode = Mode.normal
  · exact coherent_normal chr h hmode
  · have hquiet : s.skip.Quiet := ⟨hmode, h.skipped hmode⟩
    apply wp_call_and hwf (wp_machineInput_skip chr hquiet)
    intro _ t htwf ht
    have hzero : t.machine.expectstring.insertLen = 0 := by
      rcases ht with hstep | ⟨_, hfound⟩
      · have hlen := congrArg Skip.insertLen hstep
        rw [(step_label ..).2] at hlen
        exact hlen.trans hquiet.insertLen
      · exact (congrArg Skip.insertLen hfound).trans hquiet.insertLen
    refine ⟨htwf, ?_, fun _ => hzero, fun _ => hzero⟩
    intro hsearch
    rcases ht with hstep | ⟨_, hfound⟩
    · have hlabel := congrArg Skip.label hstep
      rw [(step_label ..).1] at hlabel
      have hgoto : s.mode = Mode.parseOnlyGoto := by
        apply h.label
        intro hnil
        exact hsearch (hlabel.trans hnil)
      rw [step_goto _ _ hgoto] at hstep
      exact (congrArg Skip.mode hstep).trans hgoto
    · exact absurd (congrArg Skip.label hfound) hsearch

variable (host env) in
/-- Pass characters to a machine. -/
def feed : List Gunichar -> Exec (State W Reg) Unit
  | [] => pure ()
  | chr :: rest => do
      machineInput host env chr
      feed rest

/-- In every run from the start of a macro. -/
theorem coherent_feed {s : State W Reg} (body : List Gunichar)
    (h : Coherent s) :
    wp (feed host env body) (fun _ t => Coherent t) (fun _ _ => True)
      (fun _ => True) s := by
  induction body generalizing s with
  | nil => exact h
  | cons chr rest ih =>
      rw [feed, wp_bind]
      apply wp_call (coherent_machineInput chr h)
      intro _ t ht
      exact ih ht

end Parser
end SciTECO
