import SciTECO.Parser.Syntax

/-!
# Syntax of Q-Register specifications

A specification machine reads characters as its syntactic state does, in normal
mode and in parse-only mode.  In parse-only mode it leaves the editor alone.
The string building machine of the name is left open.
-/

namespace SciTECO
namespace Parser

open Undoable
open QReg (Table)

variable {σ W Reg : Type} {env : Env}

/-!
## Rules
-/

section Rules

variable {fail : TecoError -> σ -> Prop} {bad : Fault -> Prop} {s : σ}

@[simp] theorem wp_undo (token : σ -> σ) {post : Unit -> σ -> Prop} :
    wp (undo env token) post fail bad s <-> post () s := by
  unfold undo
  cases env.mustUndo
  · exact Iff.rfl
  · exact Iff.rfl

end Rules

section StringRules

variable {fail : TecoError -> SBScope W Reg -> Prop} {bad : Fault -> Prop}
variable {s : SBScope W Reg}

@[simp] theorem wp_getCore {post : SBCore -> SBScope W Reg -> Prop} :
    wp getCore post fail bad s <-> post s.1.core s := by
  simp [getCore]

@[simp] theorem wp_modifyCore (f : SBCore -> SBCore)
    {post : Unit -> SBScope W Reg -> Prop} :
    wp (modifyCore f) post fail bad s <-> post () (s.1.mapCore f, s.2) := by
  simp [modifyCore]

@[simp] theorem wp_undoCore (f : SBCore -> SBCore)
    {post : Unit -> SBScope W Reg -> Prop} :
    wp (undoCore env f) post fail bad s <-> post () s := by
  simp [undoCore]

end StringRules

section SpecRules

variable {fail : TecoError -> SpecScope W Reg -> Prop} {bad : Fault -> Prop}
variable {s : SpecScope W Reg}

@[simp] theorem wp_getSpec {post : SpecCore Reg -> SpecScope W Reg -> Prop} :
    wp getSpec post fail bad s <-> post s.1.core s := by
  simp [getSpec]

@[simp] theorem wp_modifySpec (f : SpecCore Reg -> SpecCore Reg)
    {post : Unit -> SpecScope W Reg -> Prop} :
    wp (modifySpec f) post fail bad s <->
      post () ({ s.1 with core := f s.1.core }, s.2) := by
  simp [modifySpec]

@[simp] theorem wp_undoSpec (f : SpecCore Reg -> SpecCore Reg)
    {post : Unit -> SpecScope W Reg -> Prop} :
    wp (undoSpec env f) post fail bad s <-> post () s := by
  simp [undoSpec]

end SpecRules

/-- Work on the editor leaves the machine alone. -/
theorem wp_onEditor {ρ α : Type} (m : Exec (Editor W) α)
    {post : α -> ρ × Editor W -> Prop} {fail : TecoError -> ρ × Editor W -> Prop}
    {bad : Fault -> Prop} {s : ρ × Editor W}
    (hpost : forall a e, post a (s.1, e))
    (hfail : forall err e, fail err (s.1, e)) (hbad : forall c, bad c) :
    wp (onEditor m) post fail bad s := by
  unfold onEditor
  rw [wp_zoom]
  unfold wp
  cases m s.2 with
  | ok a e tokens => exact hpost a e
  | error err e tokens => exact hfail err e
  | fault c => exact hbad c

/-!
## Resetting
-/

/-- What a reset leaves behind; it cannot fail. -/
def ResetTo (sb : StringBuilding Reg) (e : Editor W)
    (t : SBScope W Reg) : Prop :=
  t.2 = e ∧ t.1.WellFormed ∧ t.1.toSyntax = SBSyntax.fresh ∧
    t.1.core.escapeChar = sb.core.escapeChar

theorem wp_resetQRegSpecWith {resetInner : Exec (SBScope W Reg) Unit}
    (q : QRegSpec Reg) (e : Editor W)
    (hreset : wp resetInner (fun _ t => ResetTo q.stringbuilding e t)
      (fun _ _ => False) (fun _ => False) (q.stringbuilding, e)) :
    wp (resetQRegSpecWith env resetInner)
      (fun _ t =>
        t.2 = e ∧ t.1.stringbuilding.WellFormed ∧
          t.1.toSyntax = ⟨SpecState.start, 0, SBSyntax.fresh⟩)
      (fun _ _ => False) (fun _ => False) (q, e) := by
  simp only [resetQRegSpecWith, wp_bind, wp_getSpec, wp_ite, wp_undoSpec,
    wp_modifySpec, wp_zoom, ite_self]
  apply wp_call hreset
  intro _ t ht
  rcases ht with ⟨heditor, hwf, hshape, _⟩
  refine ⟨heditor, hwf, ?_⟩
  simp [QRegSpec.toSyntax, Lens.left, hshape]

theorem wp_resetStringBuilding (sb : StringBuilding Reg) (e : Editor W)
    (hwf : sb.WellFormed) :
    wp (resetStringBuilding env sb) (fun _ t => ResetTo sb e t)
      (fun _ _ => False) (fun _ => False) (sb, e) := by
  induction sb with
  | plain core =>
      simp [resetStringBuilding, resetStringBuildingWith, ResetTo,
        StringBuilding.mapCore, StringBuilding.WellFormed,
        StringBuilding.toSyntax, SBState.readsSpec, SBSyntax.fresh]
  | withSpec core spec inner ih =>
      simp only [resetStringBuilding, resetStringBuildingWith, wp_bind,
        wp_getCore, wp_ite, wp_undoCore, wp_modifyCore, wp_zoom, ite_self]
      apply wp_call (wp_resetQRegSpecWith
        { core := spec, stringbuilding := inner } e (ih hwf.1))
      intro _ t ht
      rcases ht with ⟨heditor, hinner, _⟩
      simp [ResetTo, heditor, hinner, Lens.left, StringBuilding.mapCore,
        StringBuilding.WellFormed, StringBuilding.toSyntax,
        SBState.readsSpec, SBSyntax.fresh]

/-!
## Specifications
-/

theorem toSyntax_current (sb : StringBuilding Reg) :
    sb.toSyntax.current = sb.core.current := by
  cases sb with
  | plain core => rfl
  | withSpec core spec inner =>
      unfold StringBuilding.toSyntax
      split
      · rfl
      · rfl

section Specifications

variable {host : Host W Reg}

/-- The machine has changed in its name and its result only. -/
def SameSpec (s t : SpecScope W Reg) : Prop :=
  t.1.stringbuilding = s.1.stringbuilding ∧
    t.1.core.current = s.1.core.current ∧
    t.1.core.nesting = s.1.core.nesting ∧
    (s.1.core.parseOnly = true -> t.1.core.parseOnly = true ∧ t.2 = s.2)

theorem wp_specDone (s : SpecScope W Reg) :
    wp (specDone host) (fun next t => next = SpecState.start ∧ SameSpec s t)
      (fun _ _ => s.1.core.parseOnly = false)
      (fun _ => s.1.core.parseOnly = false) s := by
  unfold specDone
  simp only [wp_bind, wp_getSpec, wp_ite]
  cases hparse : s.1.core.parseOnly with
  | true => simp [SameSpec]
  | false =>
      simp only [wp_get, wp_modifySpec, SameSpec]
      generalize host.find s.1.core.resultTable s.1.core.name s.2 = result
      cases htype : s.1.core.type <;> cases result <;> simp
      apply wp_onEditor
      · intro _ _
        simp [hparse]
      · intro _ _
        trivial
      · intro _
        trivial

theorem wp_specAppend (chr : Gunichar) (s : SpecScope W Reg) :
    wp (specAppend env chr) (fun _ t => SameSpec s t) (fun _ _ => False)
      (fun _ => False) s := by
  unfold specAppend
  simp only [wp_bind, wp_getSpec, wp_ite]
  cases hparse : s.1.core.parseOnly <;> simp [SameSpec, hparse]

/-- A character has been read: `next` is the state to enter. -/
def SpecReads (s : SpecScope W Reg) (chr : Gunichar) (next : SpecState)
    (t : SpecScope W Reg) : Prop :=
  t.1.stringbuilding.WellFormed ∧
    t.1.core.current = s.1.core.current ∧
    SBSyntax.specStep (s.1.stringbuilding.toSyntax.step chr)
        s.1.core.current s.1.core.nesting s.1.stringbuilding.toSyntax chr =
      some (next, t.1.core.nesting, t.1.stringbuilding.toSyntax) ∧
    (s.1.core.parseOnly = true -> t.1.core.parseOnly = true ∧ t.2 = s.2)

/-- A character is rejected; in normal mode this may have any reason. -/
def SpecRejects (s : SpecScope W Reg) (chr : Gunichar)
    (t : SpecScope W Reg) : Prop :=
  s.1.core.parseOnly = true ->
    SBSyntax.specStep (s.1.stringbuilding.toSyntax.step chr)
        s.1.core.current s.1.core.nesting s.1.stringbuilding.toSyntax chr =
      none ∧ t.2 = s.2

/-- The inner machine reads characters as its syntactic state does. -/
def SBReads (sb : StringBuilding Reg) (e : Editor W) (chr : Gunichar)
    (result : Bool) (t : SBScope W Reg) : Prop :=
  t.1.WellFormed ∧ sb.toSyntax.step chr = some t.1.toSyntax ∧
    t.1.core.escapeChar = sb.core.escapeChar ∧ (result = false -> t.2 = e)

def SBRejects (sb : StringBuilding Reg) (e : Editor W) (chr : Gunichar)
    (result : Bool) (t : SBScope W Reg) : Prop :=
  result = false -> sb.toSyntax.step chr = none ∧ t.2 = e

/-- A specification that ends with this character. -/
theorem specReads_done {s t : SpecScope W Reg} {chr : Gunichar}
    (hwf : s.1.stringbuilding.WellFormed)
    (hstep : SBSyntax.specStep (s.1.stringbuilding.toSyntax.step chr)
        s.1.core.current s.1.core.nesting s.1.stringbuilding.toSyntax chr =
      some (SpecState.start, s.1.core.nesting,
        s.1.stringbuilding.toSyntax))
    (h : SameSpec s t) : SpecReads s chr SpecState.start t := by
  rcases h with ⟨hinner, hcurrent, hnesting, hparse⟩
  refine ⟨?_, hcurrent, ?_, hparse⟩
  · rw [hinner]
    exact hwf
  · rw [hinner, hnesting]
    exact hstep

theorem wp_specAppendDone (chr name : Gunichar) (s : SpecScope W Reg)
    (hwf : s.1.stringbuilding.WellFormed)
    (hstep : SBSyntax.specStep (s.1.stringbuilding.toSyntax.step chr)
        s.1.core.current s.1.core.nesting s.1.stringbuilding.toSyntax chr =
      some (SpecState.start, s.1.core.nesting,
        s.1.stringbuilding.toSyntax)) :
    wp (do specAppend env name; specDone host) (SpecReads s chr)
      (fun _ t => SpecRejects s chr t)
      (fun _ => s.1.core.parseOnly = false) s := by
  rw [wp_bind]
  apply wp_mono (wp_specAppend name s)
  · intro _ t ht
    have hparse : t.1.core.parseOnly = false -> s.1.core.parseOnly = false := by
      intro h
      by_contra hs
      have := (ht.2.2.2 (by simpa using hs)).1
      simp_all
    apply wp_mono (wp_specDone t)
    · intro next u hu
      rcases hu with ⟨rfl, hsame⟩
      apply specReads_done hwf hstep
      rcases ht with ⟨hinner, hcurrent, hnesting, heditor⟩
      rcases hsame with ⟨hinner', hcurrent', hnesting', heditor'⟩
      refine ⟨hinner'.trans hinner, hcurrent'.trans hcurrent,
        hnesting'.trans hnesting, ?_⟩
      intro h
      rcases heditor h with ⟨hp, he⟩
      rcases heditor' hp with ⟨hp', he'⟩
      exact ⟨hp', he'.trans he⟩
    · intro _ _ h hs
      simp [hparse h] at hs
    · intro _ h
      exact hparse h
  · intro _ _ h
    exact h.elim
  · intro _ h
    exact h.elim

theorem specReads_same {s : SpecScope W Reg} {chr : Gunichar}
    {next : SpecState} (hwf : s.1.stringbuilding.WellFormed)
    (hstep : SBSyntax.specStep (s.1.stringbuilding.toSyntax.step chr)
        s.1.core.current s.1.core.nesting s.1.stringbuilding.toSyntax chr =
      some (next, s.1.core.nesting, s.1.stringbuilding.toSyntax)) :
    SpecReads s chr next s :=
  ⟨hwf, rfl, hstep, fun h => ⟨h, rfl⟩⟩

theorem wp_specStartGlobalInput (chr : Gunichar) (s : SpecScope W Reg)
    (hwf : s.1.stringbuilding.WellFormed)
    (hstep : SBSyntax.specStep (s.1.stringbuilding.toSyntax.step chr)
        s.1.core.current s.1.core.nesting s.1.stringbuilding.toSyntax chr =
      some ((SBSyntax.specGlobalStep chr).1,
        s.1.core.nesting + (SBSyntax.specGlobalStep chr).2,
        s.1.stringbuilding.toSyntax)) :
    wp (specStartGlobalInput host env chr) (SpecReads s chr)
      (fun _ t => SpecRejects s chr t)
      (fun _ => s.1.core.parseOnly = false) s := by
  unfold specStartGlobalInput
  unfold SBSyntax.specGlobalStep at hstep
  simp only [wp_bind, wp_getSpec]
  split
  case h_1 heq =>
      rw [wp_pure]
      apply specReads_same hwf
      simpa [heq] using hstep
  case h_2 heq =>
      rw [wp_pure]
      apply specReads_same hwf
      simpa [heq] using hstep
  case h_3 heq =>
      simp only [wp_bind, wp_undoSpec, wp_modifySpec, wp_pure]
      refine ⟨hwf, rfl, ?_, fun h => ⟨h, rfl⟩⟩
      simpa [heq] using hstep
  case h_4 hcaret hhash hbracket =>
      apply wp_specAppendDone chr (host.glib.toUpper chr) s hwf
      rw [hstep]
      split
      case h_1 heq => exact absurd heq hcaret
      case h_2 heq => exact absurd heq hhash
      case h_3 heq => exact absurd heq hbracket
      case h_4 => simp

theorem wp_specStartInput (chr : Gunichar) (s : SpecScope W Reg)
    (hwf : s.1.stringbuilding.WellFormed)
    (hcurrent : s.1.core.current = SpecState.start) :
    wp (specStartInput host env chr) (SpecReads s chr)
      (fun _ t => SpecRejects s chr t)
      (fun _ => s.1.core.parseOnly = false) s := by
  unfold specStartInput
  simp only [wp_bind, wp_getSpec, wp_ite, wp_undoSpec, wp_modifySpec,
    wp_pure]
  by_cases hdot : chr = '.'.toNat
  · rw [if_pos hdot]
    refine ⟨hwf, rfl, ?_, fun h => ⟨h, rfl⟩⟩
    simp [SBSyntax.specStep, hcurrent, hdot]
  · rw [if_neg hdot]
    apply wp_specStartGlobalInput chr s hwf
    simp only [SBSyntax.specStep, hcurrent, hdot, if_false]

theorem wp_specCaretInput (chr : Gunichar) (s : SpecScope W Reg)
    (hwf : s.1.stringbuilding.WellFormed)
    (hcurrent : s.1.core.current = SpecState.caret) :
    wp (specCaretInput host env chr) (SpecReads s chr)
      (fun _ t => SpecRejects s chr t)
      (fun _ => s.1.core.parseOnly = false) s := by
  unfold specCaretInput
  rw [wp_ite]
  by_cases hkey :
      asciiToUpper chr < '@'.toNat ∨ asciiToUpper chr > '_'.toNat
  · rw [if_pos hkey, wp_throw]
    intro _
    simp only [SBSyntax.specStep, hcurrent, hkey, if_true, and_self]
  · rw [if_neg hkey]
    apply wp_specAppendDone chr (ctlKey (asciiToUpper chr)) s hwf
    simp only [SBSyntax.specStep, hcurrent, hkey, if_false]

/-- A character of a name in brackets is passed on. -/
theorem wp_specFeed {innerInput : Bool -> Exec (SBScope W Reg) Bytes}
    (chr : Gunichar) (q : QRegSpec Reg) (e : Editor W) (nesting : Int)
    (hinner : wp (innerInput (!q.core.parseOnly))
      (fun _ t => SBReads q.stringbuilding e chr (!q.core.parseOnly) t)
      (fun _ t => SBRejects q.stringbuilding e chr (!q.core.parseOnly) t)
      (fun _ => (!q.core.parseOnly) = true) (q.stringbuilding, e))
    (hstep : SBSyntax.specStep (q.stringbuilding.toSyntax.step chr)
        q.core.current q.core.nesting q.stringbuilding.toSyntax chr =
      (q.stringbuilding.toSyntax.step chr).map
        (fun inner => (SpecState.string, nesting, inner))) :
    wp (do
        if q.core.parseOnly then
          pure ()
        else
          undoSpec env (fun c =>
            { c with name := c.name.take q.core.name.length })
        let text <- zoom innerLens.left (innerInput (!q.core.parseOnly))
        modifySpec (fun c => { c with name := c.name ++ text })
        pure SpecState.string)
      (SpecReads (q, e) chr) (fun _ t => SpecRejects (q, e) chr t)
      (fun _ => q.core.parseOnly = false)
      ({ q with core := { q.core with nesting := nesting } }, e) := by
  simp only [wp_bind, wp_ite, wp_pure, wp_undoSpec, ite_self, wp_zoom,
    wp_modifySpec]
  apply wp_mono hinner
  · intro _ t ht
    rcases ht with ⟨hwf, hshape, _, heditor⟩
    refine ⟨hwf, rfl, ?_, ?_⟩
    · rw [hstep, hshape]
      rfl
    · intro hparse
      change q.core.parseOnly = true at hparse
      exact ⟨hparse, heditor (by simp [hparse])⟩
  · intro _ t ht hparse
    change q.core.parseOnly = true at hparse
    rcases ht (by simp [hparse]) with ⟨hnone, heditor⟩
    refine ⟨?_, heditor⟩
    rw [hstep, hnone]
    rfl
  · intro _ h
    simpa using h

theorem wp_specStringInput
    {innerInput : Bool -> Exec (SBScope W Reg) Bytes}
    (chr : Gunichar) (q : QRegSpec Reg) (e : Editor W)
    (hwf : q.stringbuilding.WellFormed)
    (hcurrent : q.core.current = SpecState.string)
    (hinner : wp (innerInput (!q.core.parseOnly))
      (fun _ t => SBReads q.stringbuilding e chr (!q.core.parseOnly) t)
      (fun _ t => SBRejects q.stringbuilding e chr (!q.core.parseOnly) t)
      (fun _ => (!q.core.parseOnly) = true) (q.stringbuilding, e)) :
    wp (specStringInput host env innerInput chr) (SpecReads (q, e) chr)
      (fun _ t => SpecRejects (q, e) chr t)
      (fun _ => q.core.parseOnly = false) (q, e) := by
  unfold specStringInput
  rw [wp_bind, wp_get]
  dsimp only
  simp only [decide_eq_true_eq]
  have hcore : q.stringbuilding.toSyntax.current =
      q.stringbuilding.core.current := toSyntax_current q.stringbuilding
  rw [wp_ite]
  split
  case isTrue hopen =>
      simp only [wp_bind (undoSpec _ _), wp_bind (modifySpec _),
        wp_undoSpec, wp_modifySpec]
      apply wp_specFeed chr q e _ hinner
      simp only [SBSyntax.specStep, hcurrent, hcore, hopen, and_self,
        if_true]
  case isFalse hopen =>
      rw [wp_ite]
      split
      case isTrue hclose =>
          simp only [wp_bind (undoSpec _ _), wp_bind (modifySpec _),
            wp_undoSpec, wp_modifySpec]
          rw [wp_ite]
          split
          case isTrue hlast =>
              apply wp_mono (wp_specDone _)
              · intro next t ht
                rcases ht with ⟨rfl, hsame, hcurrent', hnesting, hparse⟩
                refine ⟨?_, hcurrent', ?_, hparse⟩
                · rw [hsame]
                  exact hwf
                · rw [hsame, hnesting]
                  simp only [SBSyntax.specStep, hcurrent, hcore]
                  rw [if_neg hopen, if_pos hclose, if_pos hlast]
              · intro _ t h hparse
                change q.core.parseOnly = true at hparse
                change q.core.parseOnly = false at h
                simp [hparse] at h
              · intro _ h
                exact h
          case isFalse hlast =>
              apply wp_specFeed chr q e _ hinner
              simp only [SBSyntax.specStep, hcurrent, hcore]
              rw [if_neg hopen, if_pos hclose, if_neg hlast]
      case isFalse hclose =>
          apply wp_specFeed chr q e _ hinner
          simp only [SBSyntax.specStep, hcurrent, hcore, hopen, hclose,
            if_false]

theorem wp_specStateInput
    {innerInput : Bool -> Exec (SBScope W Reg) Bytes}
    (chr : Gunichar) (q : QRegSpec Reg) (e : Editor W)
    (hwf : q.stringbuilding.WellFormed)
    (hinner : wp (innerInput (!q.core.parseOnly))
      (fun _ t => SBReads q.stringbuilding e chr (!q.core.parseOnly) t)
      (fun _ t => SBRejects q.stringbuilding e chr (!q.core.parseOnly) t)
      (fun _ => (!q.core.parseOnly) = true) (q.stringbuilding, e)) :
    wp (specStateInput host env innerInput chr) (SpecReads (q, e) chr)
      (fun _ t => SpecRejects (q, e) chr t)
      (fun _ => q.core.parseOnly = false) (q, e) := by
  unfold specStateInput
  rw [wp_bind, wp_getSpec]
  cases hcurrent : q.core.current with
  | start =>
      apply wp_specStartInput chr (q, e) hwf hcurrent
  | startGlobal =>
      apply wp_specStartGlobalInput chr (q, e) hwf
      simp only [SBSyntax.specStep, hcurrent]
  | caret =>
      apply wp_specCaretInput chr (q, e) hwf hcurrent
  | firstchar =>
      simp only [wp_bind, wp_pure]
      apply wp_mono (wp_specAppend (host.glib.toUpper chr) (q, e))
      · intro _ t ht
        rcases ht with ⟨hsame, hcurrent', hnesting, hparse⟩
        refine ⟨?_, hcurrent', ?_, hparse⟩
        · rw [hsame]
          exact hwf
        · rw [hsame, hnesting]
          simp only [SBSyntax.specStep, hcurrent]
      · intro _ _ h
        exact h.elim
      · intro _ h
        exact h.elim
  | secondchar =>
      apply wp_specAppendDone chr (host.glib.toUpper chr) (q, e) hwf
      simp only [SBSyntax.specStep, hcurrent]
  | string =>
      apply wp_specStringInput chr q e hwf hcurrent hinner

/-- A character has been read by a specification: it is complete when there is
a result. -/
def SpecAdvances (q : QRegSpec Reg) (e : Editor W) (chr : Gunichar)
    (wanted : Bool) (done : Bool) (t : SpecScope W Reg) : Prop :=
  t.1.stringbuilding.WellFormed ∧
    SBSyntax.specStep (q.stringbuilding.toSyntax.step chr)
        q.core.current q.core.nesting q.stringbuilding.toSyntax chr =
      some (t.1.core.current, t.1.core.nesting,
        t.1.stringbuilding.toSyntax) ∧
    (done = true <-> t.1.core.current = SpecState.start) ∧
    (wanted = false -> t.2 = e)

def SpecStops (q : QRegSpec Reg) (e : Editor W) (chr : Gunichar)
    (wanted : Bool) (t : SpecScope W Reg) : Prop :=
  wanted = false ->
    SBSyntax.specStep (q.stringbuilding.toSyntax.step chr)
        q.core.current q.core.nesting q.stringbuilding.toSyntax chr =
      none ∧ t.2 = e

theorem wp_specInput {innerInput : Bool -> Exec (SBScope W Reg) Bytes}
    (wanted : Bool) (chr : Gunichar) (q : QRegSpec Reg) (e : Editor W)
    (hwf : q.stringbuilding.WellFormed)
    (hinner : wp (innerInput wanted)
      (fun _ t => SBReads q.stringbuilding e chr wanted t)
      (fun _ t => SBRejects q.stringbuilding e chr wanted t)
      (fun _ => wanted = true) (q.stringbuilding, e)) :
    wp (specInput host env wanted innerInput chr)
      (fun r t => SpecAdvances q e chr wanted r.isSome t)
      (fun _ t => SpecStops q e chr wanted t)
      (fun _ => wanted = true) (q, e) := by
  have hstate : wp (specStateInput host env innerInput chr) _ _ _ _ :=
    wp_specStateInput chr { q with core := { q.core with parseOnly := !wanted } } e hwf
    (by simpa using hinner)
  unfold specInput
  simp only [wp_bind, wp_modifySpec]
  apply wp_mono hstate
  · intro next t ht
    rcases ht with ⟨hinner', hcurrent, hstep, hparse⟩
    simp only [wp_getSpec, wp_ite, wp_bind, wp_undoSpec, wp_modifySpec,
      wp_pure]
    have heditor : wanted = false -> t.2 = e := by
      intro h
      exact (hparse (by simp [h])).2
    have hadvances (done : Bool) (u : SpecScope W Reg)
        (hcore : u.1.core = { t.1.core with current := next })
        (hsb : u.1.stringbuilding = t.1.stringbuilding)
        (he : u.2 = t.2)
        (hdone : done = true <-> next = SpecState.start) :
        SpecAdvances q e chr wanted done u := by
      refine ⟨?_, ?_, ?_, ?_⟩
      · rw [hsb]
        exact hinner'
      · rw [hcore, hsb]
        exact hstep
      · rw [hcore]
        exact hdone
      · intro h
        rw [he]
        exact heditor h
    by_cases hsame : next = t.1.core.current
    · rw [if_neg (not_not.mpr hsame)]
      subst hsame
      split
      case isTrue hstart =>
          exact hadvances true t rfl rfl rfl (by simp [hstart])
      case isFalse hstart =>
          exact hadvances false t rfl rfl rfl (by simp [hstart])
    · rw [if_pos hsame]
      split
      case isTrue hstart =>
          exact hadvances true _ rfl rfl rfl (by simp [hstart])
      case isFalse hstart =>
          exact hadvances false _ rfl rfl rfl (by simp [hstart])
  · intro _ t ht h
    exact ht (by simp [h])
  · intro _ h
    simpa using h

end Specifications

end Parser
end SciTECO
