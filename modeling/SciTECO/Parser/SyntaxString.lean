import SciTECO.Parser.SyntaxSpec

/-!
# Syntax of string building

A string building machine reads characters as its syntactic state does, with or
without a result.  Without one it leaves the editor alone.
-/

namespace SciTECO
namespace Parser

open Undoable
open QReg (Table)

variable {W Reg : Type} {env : Env}

variable {host : Host W Reg}

/-!
## States without a specification
-/

/-- The machine in its next state. -/
def StringBuilding.enter (sb : StringBuilding Reg) (next : SBState) :
    StringBuilding Reg :=
  sb.mapCore (fun core => { core with current := next })

/-- A state has read a character, and `next` is the state to enter. -/
def SBNext (sb : StringBuilding Reg) (e : Editor W) (chr : Gunichar)
    (result : Bool) (next : SBState) (t : SBScope W Reg) : Prop :=
  t.1.core.current = sb.core.current ∧
    (t.1.enter next).WellFormed ∧
    sb.toSyntax.step chr = some (t.1.enter next).toSyntax ∧
    t.1.core.escapeChar = sb.core.escapeChar ∧
    (result = false -> t.2 = e)

theorem toSyntax_base {sb : StringBuilding Reg}
    (h : sb.core.current.readsSpec = false) :
    sb.toSyntax =
      SBSyntax.base sb.core.current (sb.core.mode == SBMode.disabled) := by
  cases sb with
  | plain core => rfl
  | withSpec core spec inner =>
      simp only [StringBuilding.core_withSpec] at h
      simp [StringBuilding.toSyntax, h]

/-- A state has changed the machine's mode or code, and enters `next` as the
syntax `y` demands. -/
def SBMoves (sb : StringBuilding Reg) (e : Editor W) (y : SBSyntax)
    (next : SBState) (t : SBScope W Reg) : Prop :=
  exists f : SBCore -> SBCore,
    t = (sb.mapCore f, e) ∧
      (f sb.core).current = sb.core.current ∧
      (f sb.core).escapeChar = sb.core.escapeChar ∧
      next.readsSpec = false ∧
      ((f sb.core).mode = SBMode.disabled -> next = SBState.start) ∧
      y = SBSyntax.base next ((f sb.core).mode == SBMode.disabled)

theorem sbNext_of_moves {sb : StringBuilding Reg} {e : Editor W}
    {chr : Gunichar} {result : Bool} {next : SBState} {t : SBScope W Reg}
    (hwf : sb.WellFormed) (hcurrent : sb.core.current.readsSpec = false)
    (h : SBMoves sb e (SBSyntax.baseStep sb.core.current
      (sb.core.mode == SBMode.disabled) chr) next t) :
    SBNext sb e chr result next t := by
  rcases h with ⟨f, rfl, hf, hescape, hnext, hmode, hstep⟩
  refine ⟨?_, ?_, ?_, ?_, fun _ => rfl⟩
  · rw [StringBuilding.core_mapCore, hf]
  · cases sb with
    | plain core => exact ⟨hnext, hmode⟩
    | withSpec core spec inner => exact ⟨hwf.1, hmode⟩
  · rw [toSyntax_base hcurrent, toSyntax_base]
    · simpa [SBSyntax.step, StringBuilding.enter] using hstep
    · simpa [StringBuilding.enter] using hnext
  · rw [StringBuilding.core_mapCore, hescape]

theorem sbMoves_same {sb : StringBuilding Reg} {e : Editor W}
    {next : SBState} (hnext : next.readsSpec = false)
    (hmode : sb.core.mode = SBMode.disabled -> next = SBState.start) :
    SBMoves sb e (SBSyntax.base next (sb.core.mode == SBMode.disabled)) next
      (sb, e) := by
  refine ⟨id, ?_, rfl, rfl, hnext, hmode, rfl⟩
  cases sb <;> rfl

theorem wp_escapedInput (result : Bool) (chr : Gunichar)
    (sb : StringBuilding Reg) (e : Editor W) :
    wp (escapedInput host result chr)
      (fun p t => SBMoves sb e (SBSyntax.base SBState.start
        (sb.core.mode == SBMode.disabled)) p.1 t)
      (fun _ _ => False) (fun _ => False) (sb, e) := by
  unfold escapedInput
  rw [wp_bind, wp_getCore, wp_ite]
  split
  · exact sbMoves_same rfl (fun _ => rfl)
  · exact sbMoves_same rfl (fun _ => rfl)

/-- Most characters are inserted by themselves or as control characters. -/
theorem ctlStep_other {disabled : Bool} {chr : Gunichar}
    (hP : ascii (asciiToUpper chr) ≠ some 'P')
    (hQ : ascii (asciiToUpper chr) ≠ some 'Q')
    (hR : ascii (asciiToUpper chr) ≠ some 'R')
    (hV : ascii (asciiToUpper chr) ≠ some 'V')
    (hW : ascii (asciiToUpper chr) ≠ some 'W')
    (hE : ascii (asciiToUpper chr) ≠ some 'E') :
    SBSyntax.ctlStep disabled chr =
      SBSyntax.base SBState.start disabled := by
  unfold SBSyntax.ctlStep
  split
  case h_1 heq => exact absurd heq hP
  case h_2 heq => exact absurd heq hQ
  case h_3 heq => exact absurd heq hR
  case h_4 heq => exact absurd heq hV
  case h_5 heq => exact absurd heq hW
  case h_6 heq => exact absurd heq hE
  case h_7 => rfl

theorem wp_ctlInput (result : Bool) (chr : Gunichar)
    (sb : StringBuilding Reg) (e : Editor W)
    (henabled : sb.core.mode ≠ SBMode.disabled) :
    wp (ctlInput env result chr)
      (fun p t => SBMoves sb e
        (SBSyntax.ctlStep (sb.core.mode == SBMode.disabled) chr) p.1 t)
      (fun _ _ => False) (fun _ => False) (sb, e) := by
  unfold ctlInput
  rw [wp_bind, wp_getCore]
  split
  case h_1 heq =>
      simp only [SBSyntax.ctlStep, heq]
      exact sbMoves_same rfl (fun _ => rfl)
  case h_2 heq =>
      simp only [wp_bind, wp_undoCore, wp_modifyCore, wp_pure,
        SBSyntax.ctlStep, heq]
      exact ⟨_, rfl, rfl, rfl, rfl, fun _ => rfl, rfl⟩
  case h_3 heq =>
      simp only [SBSyntax.ctlStep, heq]
      exact sbMoves_same rfl (fun h => absurd h henabled)
  case h_4 heq =>
      simp only [SBSyntax.ctlStep, heq]
      exact sbMoves_same rfl (fun h => absurd h henabled)
  case h_5 heq =>
      simp only [SBSyntax.ctlStep, heq]
      exact sbMoves_same rfl (fun h => absurd h henabled)
  case h_6 heq =>
      simp only [SBSyntax.ctlStep, heq]
      exact sbMoves_same rfl (fun h => absurd h henabled)
  case h_7 heq =>
      simp only [SBSyntax.ctlStep, heq]
      exact sbMoves_same rfl (fun h => absurd h henabled)
  case h_8 hP hQ hR hV hW hE =>
      rw [wp_ite, ctlStep_other hP hQ hR hV hW hE]
      split
      · exact sbMoves_same rfl (fun _ => rfl)
      · exact sbMoves_same rfl (fun _ => rfl)

theorem wp_sbStartInput (result : Bool) (chr : Gunichar)
    (sb : StringBuilding Reg) (e : Editor W) :
    wp (sbStartInput host env result chr)
      (fun p t => SBMoves sb e
        (SBSyntax.startStep (sb.core.mode == SBMode.disabled) chr) p.1 t)
      (fun _ _ => False) (fun _ => False) (sb, e) := by
  unfold sbStartInput SBSyntax.startStep
  rw [wp_bind, wp_getCore]
  by_cases hdisabled : sb.core.mode = SBMode.disabled
  · rw [if_pos hdisabled, if_pos (by simp [hdisabled])]
    exact wp_escapedInput result chr sb e
  · rw [if_neg hdisabled, if_neg
      (show ¬(sb.core.mode == SBMode.disabled) = true by
        simpa using hdisabled)]
    by_cases hcaret : chr = '^'.toNat
    · rw [if_pos hcaret, if_pos hcaret]
      exact sbMoves_same rfl (fun h => absurd h hdisabled)
    · rw [if_neg hcaret, if_neg hcaret]
      by_cases hkey : chr = ctlKey '^'.toNat
      · rw [if_pos hkey, if_pos hkey]
        exact wp_escapedInput result chr sb e
      · rw [if_neg hkey, if_neg hkey]
        by_cases hctl : isCtl chr = true
        · rw [if_pos hctl, if_pos hctl]
          exact wp_ctlInput result (ctlEcho chr) sb e hdisabled
        · rw [if_neg hctl, if_neg hctl]
          exact wp_escapedInput result chr sb e

theorem wp_caseCtlInput (key : Char) (mode : SBMode) (result : Bool)
    (chr : Gunichar) (sb : StringBuilding Reg) (e : Editor W)
    (henabled : sb.core.mode ≠ SBMode.disabled)
    (hmode : mode ≠ SBMode.disabled) :
    wp (caseCtlInput env key mode result chr)
      (fun p t => SBMoves sb e (SBSyntax.base SBState.start
        (sb.core.mode == SBMode.disabled)) p.1 t)
      (fun _ _ => False) (fun _ => False) (sb, e) := by
  unfold caseCtlInput
  rw [wp_bind, wp_getCore, wp_ite]
  split
  · rw [wp_ite]
    split
    · simp only [wp_bind, wp_undoCore, wp_modifyCore, wp_pure]
      refine ⟨_, rfl, rfl, rfl, rfl, fun _ => rfl, ?_⟩
      simp [henabled, hmode]
    · exact sbMoves_same rfl (fun _ => rfl)
  · exact sbMoves_same rfl (fun _ => rfl)

theorem wp_caseInput (ctlState : SBState)
    {ctl : Bool -> Gunichar -> Exec (SBScope W Reg) (SBState × Bytes)}
    (fold : Gunichar -> Gunichar) (result : Bool) (chr : Gunichar)
    (sb : StringBuilding Reg) (e : Editor W)
    (henabled : sb.core.mode ≠ SBMode.disabled)
    (hstate : ctlState.readsSpec = false)
    (hctl : wp (ctl result (ctlEcho chr))
      (fun p t => SBMoves sb e (SBSyntax.base SBState.start
        (sb.core.mode == SBMode.disabled)) p.1 t)
      (fun _ _ => False) (fun _ => False) (sb, e)) :
    wp (caseInput ctlState ctl fold result chr)
      (fun p t => SBMoves sb e (SBSyntax.base
        (if chr = '^'.toNat then ctlState else SBState.start)
        (sb.core.mode == SBMode.disabled)) p.1 t)
      (fun _ _ => False) (fun _ => False) (sb, e) := by
  unfold caseInput
  rw [wp_bind, wp_getCore]
  split
  · exact sbMoves_same hstate (fun h => absurd h henabled)
  · split
    · exact hctl
    · exact sbMoves_same rfl (fun _ => rfl)

theorem wp_ctleCodeInput (result : Bool) (chr : Gunichar)
    (sb : StringBuilding Reg) (e : Editor W)
    (henabled : sb.core.mode ≠ SBMode.disabled) :
    wp (ctleCodeInput host env result chr)
      (fun p t => SBMoves sb e (SBSyntax.base
        (if chr = '>'.toNat then SBState.start else SBState.ctleCode)
        (sb.core.mode == SBMode.disabled)) p.1 t)
      (fun _ _ => result = true) (fun _ => False) (sb, e) := by
  unfold ctleCodeInput
  rw [wp_bind, wp_getCore]
  split
  · cases result with
    | false => exact sbMoves_same rfl (fun _ => rfl)
    | true =>
        rw [if_pos rfl, wp_ite]
        split
        · rfl
        · split
          · rfl
          · simp only [wp_bind, wp_undoCore, wp_modifyCore, wp_pure]
            exact ⟨_, rfl, rfl, rfl, rfl, fun _ => rfl, rfl⟩
  · cases result with
    | false => exact sbMoves_same rfl (fun h => absurd h henabled)
    | true =>
        simp only [if_true, wp_bind, wp_undoCore, wp_modifyCore, wp_pure]
        exact ⟨_, rfl, rfl, rfl, rfl, fun h => absurd h henabled, rfl⟩

/-- The specification machine of a construct is reset or new. -/
theorem wp_prepareSpec (sb : StringBuilding Reg) (e : Editor W)
    (hwf : sb.WellFormed) :
    wp (prepareSpec host env)
      (fun _ t =>
        exists (spec : SpecCore Reg) (inner : StringBuilding Reg),
          t = (StringBuilding.withSpec sb.core spec inner, e) ∧
            inner.WellFormed ∧ spec.current = SpecState.start ∧
            spec.nesting = 0 ∧ inner.toSyntax = SBSyntax.fresh)
      (fun _ _ => False) (fun _ => False) (sb, e) := by
  unfold prepareSpec
  rw [wp_bind, wp_get]
  cases sb with
  | plain core =>
      simp only [wp_modify]
      refine ⟨_, _, rfl, ?_, rfl, rfl, rfl⟩
      simp [QRegSpec.new, StringBuilding.init, StringBuilding.WellFormed,
        SBState.readsSpec]
  | withSpec core spec inner =>
      rw [wp_zoom]
      apply wp_call (wp_resetQRegSpecWith _ e
        (wp_resetStringBuilding inner e hwf.1))
      intro _ t ht
      rcases ht with ⟨heditor, hinner, hshape⟩
      simp only [QRegSpec.toSyntax, SpecSyntax.mk.injEq] at hshape
      rcases hshape with ⟨hcurrent, hnesting, hfresh⟩
      refine ⟨t.1.core, t.1.stringbuilding, ?_, hinner, hcurrent, hnesting,
        hfresh⟩
      rw [<- heditor]
      rfl

theorem wp_ctleInput (result : Bool) (chr : Gunichar)
    (sb : StringBuilding Reg) (e : Editor W) (hwf : sb.WellFormed)
    (hcurrent : sb.core.current = SBState.ctle)
    (henabled : sb.core.mode ≠ SBMode.disabled) :
    wp (ctleInput host env result chr)
      (fun p t => SBNext sb e chr result p.1 t)
      (fun _ _ => False) (fun _ => False) (sb, e) := by
  unfold ctleInput
  rw [wp_bind, wp_getCore]
  have hreads : sb.core.current.readsSpec = false := by
    rw [hcurrent]
    rfl
  cases hstate : ctleState chr with
  | none =>
      apply sbNext_of_moves hwf hreads
      simp only [hcurrent, SBSyntax.baseStep, SBSyntax.ctleStep, hstate]
      exact sbMoves_same rfl (fun _ => rfl)
  | some next =>
      simp only [wp_bind]
      apply wp_call (wp_prepareSpec sb e hwf)
      intro _ t ht
      rcases ht with ⟨spec, inner, rfl, hinner, hstart, hnesting, hfresh⟩
      refine ⟨rfl, ⟨hinner, fun h => absurd h henabled⟩, ?_, rfl,
        fun _ => rfl⟩
      rw [toSyntax_base hreads]
      simp only [SBSyntax.step, hcurrent, SBSyntax.baseStep,
        SBSyntax.ctleStep, hstate, StringBuilding.enter,
        StringBuilding.mapCore, StringBuilding.toSyntax, hstart, hnesting,
        hfresh]

/-- The text for a register depends on the editor, which it may change. -/
def Expands (expand : Reg -> Table -> Exec (SBScope W Reg) Bytes) : Prop :=
  forall (reg : Reg) (table : Table) (s : SBScope W Reg),
    wp (expand reg table) (fun _ t => t.1 = s.1) (fun _ _ => True)
      (fun _ => True) s

theorem expands_num : Expands (expandNum host env) := by
  intro reg table s
  unfold expandNum
  rw [wp_bind]
  apply wp_onEditor
  · intro value e
    simp only [wp_bind, wp_get]
    split
    · trivial
    · rfl
  · intro _ _
    trivial
  · intro _
    trivial

theorem expands_u : Expands (expandU host) := by
  intro reg table s
  unfold expandU
  rw [wp_bind]
  apply wp_onEditor
  · intro value e
    rw [wp_bind, wp_getCore]
    split
    · rfl
    · trivial
  · intro _ _
    trivial
  · intro _
    trivial

theorem expands_q : Expands (expandQ host) := by
  intro reg table s
  unfold expandQ
  rw [wp_bind]
  apply wp_onEditor
  · intro str e
    rw [wp_bind, wp_getCore]
    split
    · trivial
    · rfl
  · intro _ _
    trivial
  · intro _
    trivial

theorem expands_quoted (quote : Bytes -> Bytes) :
    Expands (expandQuoted host quote) := by
  intro reg table s
  unfold expandQuoted
  rw [wp_bind]
  apply wp_onEditor
  · intro str e
    rw [wp_ite]
    split
    · trivial
    · rw [wp_bind, wp_getCore]
      rfl
  · intro _ _
    trivial
  · intro _
    trivial

/-- A construct that reads a register ends with the specification. -/
theorem wp_ctleQRegInput {expand : Reg -> Table -> Exec (SBScope W Reg) Bytes}
    {m : Exec (SpecScope W Reg) (Option (Option Reg × Table))}
    (result : Bool) (chr : Gunichar) (core : SBCore) (q : QRegSpec Reg)
    (e : Editor W) (hexpand : Expands expand)
    (hreads : core.current.readsSpec = true)
    (henabled : core.mode ≠ SBMode.disabled)
    (hm : wp m (fun r u => SpecAdvances q e chr result r.isSome u)
      (fun _ u => SpecStops q e chr result u) (fun _ => result = true)
      (q, e)) :
    wp (ctleQRegInput core.current expand (zoom specLens.left m) result)
      (fun p t => SBNext (.withSpec core q.core q.stringbuilding) e chr
        result p.1 t)
      (fun _ t => SBRejects (.withSpec core q.core q.stringbuilding) e chr
        result t)
      (fun _ => result = true)
      (.withSpec core q.core q.stringbuilding, e) := by
  unfold ctleQRegInput
  rw [wp_bind, wp_zoom]
  have hstep : (StringBuilding.withSpec core q.core
        q.stringbuilding).toSyntax.step chr =
      (SBSyntax.specStep (q.stringbuilding.toSyntax.step chr)
        q.core.current q.core.nesting q.stringbuilding.toSyntax chr).map
        (fun next =>
          if next.1 = SpecState.start then
            SBSyntax.base .start (core.mode == SBMode.disabled)
          else
            SBSyntax.spec core.current (core.mode == SBMode.disabled) next.1
              next.2.1 next.2.2) := by
    simp only [StringBuilding.toSyntax, hreads, if_true, SBSyntax.step]
  apply wp_mono hm
  · intro r u hu
    rcases hu with ⟨hwf, hspec, hdone, heditor⟩
    cases r with
    | none =>
        have hopen : u.1.core.current ≠ SpecState.start := by
          intro h
          exact absurd (hdone.mpr h) (by simp)
        refine ⟨rfl, ⟨hwf, fun h => absurd h henabled⟩, ?_, rfl, heditor⟩
        rw [hstep, hspec]
        simp [StringBuilding.enter, StringBuilding.mapCore,
          StringBuilding.toSyntax, hreads, hopen, Lens.left]
    | some found =>
        have hstart : u.1.core.current = SpecState.start := hdone.mp rfl
        have hnext (e' : Editor W) (he : result = false -> e' = e) :
            SBNext (.withSpec core q.core q.stringbuilding) e chr result
              SBState.start
              (.withSpec core u.1.core u.1.stringbuilding, e') := by
          refine ⟨rfl, ⟨hwf, fun _ => rfl⟩, ?_, rfl, he⟩
          rw [hstep, hspec]
          simp [StringBuilding.enter, StringBuilding.mapCore,
            StringBuilding.toSyntax, SBState.readsSpec, hstart]
        cases result with
        | false => exact hnext u.2 heditor
        | true =>
            rcases found with ⟨qreg, table⟩
            cases qreg with
            | none => rfl
            | some reg =>
                simp only [if_true, wp_bind]
                apply wp_mono (hexpand reg table _)
                · intro _ t ht
                  rw [wp_pure]
                  rcases t with ⟨sb, e'⟩
                  simp only at ht
                  rw [ht]
                  exact hnext e' (fun h => by simp at h)
                · intro _ _ _ h
                  simp at h
                · intro _ _
                  trivial
  · intro _ u hu h
    rcases hu h with ⟨hnone, heditor⟩
    constructor
    · rw [hstep, hnone]
      rfl
    · exact heditor
  · intro _ h
    exact h

/-- The callbacks of all states. -/
theorem wp_sbStateInput
    {specMachine : Exec (SBScope W Reg) (Option (Option Reg × Table))}
    (result : Bool) (chr : Gunichar) (sb : StringBuilding Reg)
    (e : Editor W) (hwf : sb.WellFormed)
    (hspec : forall expand : Reg -> Table -> Exec (SBScope W Reg) Bytes,
      Expands expand -> sb.core.current.readsSpec = true ->
      sb.core.mode ≠ SBMode.disabled ->
      wp (ctleQRegInput sb.core.current expand specMachine result)
        (fun p t => SBNext sb e chr result p.1 t)
        (fun _ t => SBRejects sb e chr result t) (fun _ => result = true)
        (sb, e)) :
    wp (sbStateInput host env specMachine result chr)
      (fun p t => SBNext sb e chr result p.1 t)
      (fun _ t => SBRejects sb e chr result t)
      (fun _ => result = true) (sb, e) := by
  unfold sbStateInput
  rw [wp_bind, wp_getCore]
  have henabled (h : sb.core.current ≠ SBState.start) :
      sb.core.mode ≠ SBMode.disabled := by
    intro hmode
    cases sb with
    | plain core => exact h (hwf.2 hmode)
    | withSpec core spec inner => exact h (hwf.2 hmode)
  -- A callback that changes the machine's core only, and does not fail.
  have hbase {m : Exec (SBScope W Reg) (SBState × Bytes)}
      (hreads : sb.core.current.readsSpec = false)
      (hm : wp m
        (fun p t => SBMoves sb e (SBSyntax.baseStep sb.core.current
          (sb.core.mode == SBMode.disabled) chr) p.1 t)
        (fun _ _ => result = true) (fun _ => False) (sb, e)) :
      wp m (fun p t => SBNext sb e chr result p.1 t)
        (fun _ t => SBRejects sb e chr result t)
        (fun _ => result = true) (sb, e) := by
    apply wp_mono hm
    · intro p t ht
      exact sbNext_of_moves hwf hreads ht
    · intro _ _ h h'
      simp [h] at h'
    · intro _ h
      exact h.elim
  have hsafe {m : Exec (SBScope W Reg) (SBState × Bytes)}
      (hreads : sb.core.current.readsSpec = false)
      (hm : wp m
        (fun p t => SBMoves sb e (SBSyntax.baseStep sb.core.current
          (sb.core.mode == SBMode.disabled) chr) p.1 t)
        (fun _ _ => False) (fun _ => False) (sb, e)) :
      wp m (fun p t => SBNext sb e chr result p.1 t)
        (fun _ t => SBRejects sb e chr result t)
        (fun _ => result = true) (sb, e) := by
    apply hbase hreads
    exact wp_mono hm (fun _ _ h => h) (fun _ _ h => h.elim) (fun _ h => h)
  cases hcurrent : sb.core.current with
  | start =>
      apply hsafe (by rw [hcurrent]; rfl)
      rw [hcurrent]
      exact wp_sbStartInput result chr sb e
  | ctl =>
      apply hsafe (by rw [hcurrent]; rfl)
      rw [hcurrent]
      exact wp_ctlInput result chr sb e (henabled (by simp [hcurrent]))
  | escaped =>
      apply hsafe (by rw [hcurrent]; rfl)
      rw [hcurrent]
      exact wp_escapedInput result chr sb e
  | lower =>
      apply hsafe (by rw [hcurrent]; rfl)
      rw [hcurrent]
      exact wp_caseInput _ _ result chr sb e (henabled (by simp [hcurrent]))
        rfl (wp_caseCtlInput _ _ result _ sb e
          (henabled (by simp [hcurrent])) (by simp))
  | lowerCtl =>
      apply hsafe (by rw [hcurrent]; rfl)
      rw [hcurrent]
      exact wp_caseCtlInput _ _ result chr sb e
        (henabled (by simp [hcurrent])) (by simp)
  | upper =>
      apply hsafe (by rw [hcurrent]; rfl)
      rw [hcurrent]
      exact wp_caseInput _ _ result chr sb e (henabled (by simp [hcurrent]))
        rfl (wp_caseCtlInput _ _ result _ sb e
          (henabled (by simp [hcurrent])) (by simp))
  | upperCtl =>
      apply hsafe (by rw [hcurrent]; rfl)
      rw [hcurrent]
      exact wp_caseCtlInput _ _ result chr sb e
        (henabled (by simp [hcurrent])) (by simp)
  | ctle =>
      apply wp_mono (wp_ctleInput result chr sb e hwf hcurrent
        (henabled (by simp [hcurrent])))
      · intro _ _ h
        exact h
      · intro _ _ h
        exact h.elim
      · intro _ h
        exact h.elim
  | ctleNum =>
      have h := hspec (expandNum host env) expands_num
      rw [hcurrent] at h
      exact h rfl (henabled (by simp [hcurrent]))
  | ctleU =>
      have h := hspec (expandU host) expands_u
      rw [hcurrent] at h
      exact h rfl (henabled (by simp [hcurrent]))
  | ctleCode =>
      apply hbase (by rw [hcurrent]; rfl)
      rw [hcurrent]
      exact wp_ctleCodeInput result chr sb e (henabled (by simp [hcurrent]))
  | ctleQ =>
      have h := hspec (expandQ host) expands_q
      rw [hcurrent] at h
      exact h rfl (henabled (by simp [hcurrent]))
  | ctleQuote =>
      have h := hspec (expandQuoted host host.glib.shellQuote)
        (expands_quoted _)
      rw [hcurrent] at h
      exact h rfl (henabled (by simp [hcurrent]))
  | ctleN =>
      have h := hspec (expandQuoted host globberEscapePattern)
        (expands_quoted _)
      rw [hcurrent] at h
      exact h rfl (henabled (by simp [hcurrent]))

theorem wp_sbInputWith
    {specMachine : Exec (SBScope W Reg) (Option (Option Reg × Table))}
    (result : Bool) (chr : Gunichar) (sb : StringBuilding Reg)
    (e : Editor W)
    (hstate : wp (sbStateInput host env specMachine result chr)
      (fun p t => SBNext sb e chr result p.1 t)
      (fun _ t => SBRejects sb e chr result t)
      (fun _ => result = true) (sb, e)) :
    wp (sbInputWith host env specMachine result chr)
      (fun _ t => SBReads sb e chr result t)
      (fun _ t => SBRejects sb e chr result t)
      (fun _ => result = true) (sb, e) := by
  unfold sbInputWith
  rw [wp_bind]
  apply wp_call hstate
  intro p t ht
  rcases ht with ⟨_, hwf, hstep, hescape, heditor⟩
  simp only [wp_bind, wp_getCore, wp_ite, wp_undoCore, wp_modifyCore,
    wp_pure]
  split
  case isTrue hnext =>
      refine ⟨hwf, hstep, ?_, heditor⟩
      rw [StringBuilding.core_mapCore]
      exact hescape
  case isFalse hnext =>
      have hsame : t.1.enter p.1 = t.1 := by
        rw [not_not] at hnext
        rw [hnext]
        cases t.1 <;> rfl
      rw [hsame] at hwf hstep
      exact ⟨hwf, hstep, hescape, heditor⟩

/-- A string building machine reads the characters of its syntax, whether or
not there is a result. -/
theorem wp_sbInputOf (chr : Gunichar) (sb : StringBuilding Reg)
    (result : Bool) (e : Editor W) (hwf : sb.WellFormed) :
    wp (sbInputOf host env chr sb result)
      (fun _ t => SBReads sb e chr result t)
      (fun _ t => SBRejects sb e chr result t)
      (fun _ => result = true) (sb, e) := by
  induction sb with
  | plain core =>
      apply wp_sbInputWith
      apply wp_sbStateInput result chr _ e hwf
      intro expand hexpand hreads
      exact absurd hreads (by simp [hwf.1])
  | withSpec core spec inner ih =>
      apply wp_sbInputWith
      apply wp_sbStateInput result chr _ e hwf
      intro expand hexpand hreads henabled
      exact wp_ctleQRegInput result chr core
        { core := spec, stringbuilding := inner } e hexpand hreads henabled
        (wp_specInput result chr _ e hwf.1 (ih hwf.1))

end Parser
end SciTECO
