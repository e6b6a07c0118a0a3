import SciTECO.Parser.SpecUndo

/-!
# Continuing Q-Register specifications

A restored machine reads what follows like the machine which it was restored to.
Rubbing out leads back to the register that would have been read without the
detour.
-/

namespace SciTECO
namespace Parser

open Undoable
open QReg (Table)

variable {W Reg : Type} {host : Host W Reg} {env : Env}
  {codepages : Nat -> Prop} {parse : Bool}

/-!
## String building machines
-/

/-- The machines are alike, and the editor is the same. -/
structure AlikeSB (codepages : Nat -> Prop) (u s : SBScope W Reg) : Prop where
  machine : u.1.Same codepages s.1
  editor : u.2 = s.2

/-- Nothing tells the machines apart. -/
def Respects {α : Type} (codepages : Nat -> Prop)
    (m : Exec (SBScope W Reg) α) : Prop :=
  forall u s, AlikeSB codepages u s ->
    Agree (fun _ => AlikeSB codepages) m m u s

theorem StringBuilding.Same.map {sb sb' : StringBuilding Reg}
    (h : sb.Same codepages sb') (f : SBCore -> SBCore) :
    (sb.mapCore f).Same codepages (sb'.mapCore f) := by
  cases sb <;> cases sb'
  case plain.plain c d => exact congrArg f h
  case withSpec.plain => exact ⟨congrArg f h.1, h.2⟩
  case withSpec.withSpec => exact ⟨congrArg f h.1, h.2⟩
  case plain.withSpec => exact h.elim

theorem respects_pure {α : Type} (a : α) :
    Respects codepages (pure a : Exec (SBScope W Reg) α) :=
  fun _ _ h => Agree.pure h

theorem respects_throw {α : Type} (e : TecoError) :
    Respects codepages (throw e : Exec (SBScope W Reg) α) :=
  fun _ _ _ => Agree.throw e

theorem respects_fault {α : Type} (c : Fault) :
    Respects codepages (fault c : Exec (SBScope W Reg) α) :=
  fun _ _ _ => Agree.fault c

theorem respects_bind {α β : Type} {m : Exec (SBScope W Reg) α}
    {f : α -> Exec (SBScope W Reg) β} (hm : Respects codepages m)
    (hf : forall a, Respects codepages (f a)) : Respects codepages (m >>= f) :=
  fun u s h => Agree.bind (hm u s h) (fun a u' s' h' => hf a u' s' h')

theorem respects_getCore {α : Type} {f : SBCore -> Exec (SBScope W Reg) α}
    (hf : forall core, Respects codepages (f core)) :
    Respects codepages (getCore >>= f) := by
  intro u s h
  have hread : Agree (fun core u' s' => AlikeSB codepages u' s')
      (getCore : Exec (SBScope W Reg) SBCore) getCore u s :=
    ⟨h.machine.core, h⟩
  exact hread.bind (fun core u' s' h' => hf core u' s' h')

theorem respects_undoCore (f : SBCore -> SBCore) :
    Respects codepages (undoCore env f : Exec (SBScope W Reg) Unit) := by
  intro u s h
  unfold undoCore undo
  split
  · exact Agree.emit h
  · exact Agree.pure h

theorem respects_modifyCore (f : SBCore -> SBCore) :
    Respects codepages (modifyCore f : Exec (SBScope W Reg) Unit) :=
  fun _ _ h => Agree.modify
    { machine := h.machine.map f
      editor := h.editor }

theorem respects_savedCore {α : Type} {f g : SBCore -> SBCore}
    {k : Exec (SBScope W Reg) α} (hk : Respects codepages k) :
    Respects codepages (do
      undoCore env f
      modifyCore g
      k) := by
  apply respects_bind (respects_undoCore f)
  intro _
  exact respects_bind (respects_modifyCore g) (fun _ => hk)

/-- The editor is the same for both machines. -/
theorem agree_onEditor {ρ α : Type} {u s : ρ × Editor W} (h : u.2 = s.2)
    (m : Exec (Editor W) α) :
    Agree (fun _ u' s' => u'.1 = u.1 ∧ s'.1 = s.1 ∧ u'.2 = s'.2) (onEditor m)
      (onEditor m) u s := by
  unfold onEditor
  have hsame : Agree (fun _ (e e' : Editor W) => e = e') m m u.2 s.2 := by
    rw [h]
    unfold Agree
    cases m s.2 with
    | ok a e tokens => exact ⟨rfl, rfl⟩
    | error err e tokens => rfl
    | fault c => rfl
  exact hsame.zoom (fun _ _ _ he => ⟨rfl, rfl, he⟩)

theorem respects_onEditor {α : Type} (m : Exec (Editor W) α) :
    Respects codepages (onEditor m : Exec (SBScope W Reg) α) := by
  intro u s h
  apply (agree_onEditor h.editor m).mono
  rintro a u' s' ⟨hu, hs, he⟩
  exact
    { machine := by rw [hu, hs]; exact h.machine
      editor := he }

theorem respects_escapedInput (result : Bool) (chr : Gunichar) :
    Respects codepages (escapedInput host result chr :
      Exec (SBScope W Reg) _) := by
  unfold escapedInput
  apply respects_getCore
  intro core
  split
  · exact respects_pure _
  · exact respects_pure _

theorem respects_ctlInput (result : Bool) (chr : Gunichar) :
    Respects codepages (ctlInput env result chr : Exec (SBScope W Reg) _) := by
  unfold ctlInput
  apply respects_getCore
  intro core
  split
  case h_2 => exact respects_savedCore (respects_pure _)
  case h_8 => split <;> exact respects_pure _
  all_goals exact respects_pure _

theorem respects_sbStartInput (result : Bool) (chr : Gunichar) :
    Respects codepages (sbStartInput host env result chr :
      Exec (SBScope W Reg) _) := by
  unfold sbStartInput
  apply respects_getCore
  intro core
  split
  · exact respects_escapedInput result chr
  · split
    · exact respects_pure _
    · split
      · exact respects_escapedInput result chr
      · split
        · exact respects_ctlInput result _
        · exact respects_escapedInput result chr

theorem respects_caseCtlInput (key : Char) (mode : SBMode) (result : Bool)
    (chr : Gunichar) :
    Respects codepages (caseCtlInput env key mode result chr :
      Exec (SBScope W Reg) _) := by
  unfold caseCtlInput
  apply respects_getCore
  intro core
  split
  · split
    · exact respects_savedCore (respects_pure _)
    · exact respects_pure _
  · exact respects_pure _

theorem respects_caseInput {ctlState : SBState}
    {ctl : Bool -> Gunichar -> Exec (SBScope W Reg) (SBState × Bytes)}
    {fold : Gunichar -> Gunichar}
    (hctl : forall result chr, Respects codepages (ctl result chr))
    (result : Bool) (chr : Gunichar) :
    Respects codepages (caseInput ctlState ctl fold result chr) := by
  unfold caseInput
  apply respects_getCore
  intro core
  split
  · exact respects_pure _
  · split
    · exact hctl result _
    · exact respects_pure _

theorem respects_ctleCodeInput (result : Bool) (chr : Gunichar) :
    Respects codepages (ctleCodeInput host env result chr :
      Exec (SBScope W Reg) _) := by
  unfold ctleCodeInput
  apply respects_getCore
  intro core
  split
  · split
    · split
      · exact respects_throw _
      · split
        · exact respects_throw _
        · exact respects_savedCore (respects_pure _)
    · exact respects_pure _
  · split
    · exact respects_savedCore (respects_pure _)
    · exact respects_pure _

theorem respects_expand (kind : Expansion) (reg : Reg) (table : Table) :
    Respects codepages (kind.appended host env reg table) := by
  have hquoted (quote : Bytes -> Bytes) :
      Respects codepages (expandQuoted host quote reg table) := by
    unfold expandQuoted
    apply respects_bind (respects_onEditor _)
    intro contents
    split
    · exact respects_throw _
    · apply respects_getCore
      intro core
      exact respects_pure _
  cases kind with
  | num =>
      apply respects_bind (respects_onEditor _)
      intro value u s h
      apply Agree.read
      have hformat : formatNumber value (host.radix env.locals u.2) =
          formatNumber value (host.radix env.locals s.2) := by rw [h.editor]
      rw [hformat]
      split
      · exact Agree.fault _
      · rw [h.machine.core]
        exact Agree.pure h
  | u =>
      apply respects_bind (respects_onEditor _)
      intro value
      apply respects_getCore
      intro core
      split
      · exact respects_pure _
      · exact respects_throw _
  | q =>
      apply respects_bind (respects_onEditor _)
      intro contents
      apply respects_getCore
      intro core
      split
      · exact respects_fault _
      · exact respects_pure _
  | quote => exact hquoted _
  | n => exact hquoted _

theorem respects_enterSB (next : SBState) (text : Bytes) :
    Respects codepages (enterSB env next text : Exec (SBScope W Reg) _) := by
  unfold enterSB
  apply respects_getCore
  intro core
  split
  · exact respects_savedCore (respects_pure _)
  · exact respects_pure _

/-!
## Resets
-/

/-- What a reset makes of the fields of a specification. -/
def SpecCore.cleared (spec : SpecCore Reg) : SpecCore Reg :=
  { spec with
    current := SpecState.start
    name := []
    nesting := 0
    resultTable := Table.globals }

/-- What a reset makes of a machine. -/
def StringBuilding.cleared : StringBuilding Reg -> StringBuilding Reg
  | .plain core =>
      .plain { core with current := SBState.start, mode := SBMode.normal }
  | .withSpec core spec inner =>
      .withSpec { core with current := SBState.start, mode := SBMode.normal }
        spec.cleared inner.cleared

theorem SpecCore.Same.cleared {a b : SpecCore Reg} (h : a.Same b) :
    a.cleared.Same b.cleared :=
  { current := rfl
    type := h.type
    nesting := rfl
    name := rfl
    resultTable := rfl }

theorem StringBuilding.Same.cleared {sb sb' : StringBuilding Reg}
    (h : sb.Same codepages sb') :
    sb.cleared.Same codepages sb'.cleared := by
  induction sb generalizing sb' with
  | plain c =>
      cases sb' with
      | plain d =>
          have hc : c = d := h
          rw [hc]
          exact .refl _
      | withSpec d spec' inner' => exact h.elim
  | withSpec c spec inner ih =>
      cases sb' with
      | plain d =>
          rcases h with ⟨rfl, n, hn, hspec, hinner⟩
          exact ⟨rfl, n, hn, hspec.cleared, ih hinner⟩
      | withSpec d spec' inner' =>
          rcases h with ⟨rfl, hspec, hinner⟩
          exact ⟨rfl, hspec.cleared, ih hinner⟩

theorem result_resetQRegSpecWith {resetInner : Exec (SBScope W Reg) Unit}
    {q : QRegSpec Reg} {e : Editor W} {sb : StringBuilding Reg}
    (hinner : result resetInner (q.stringbuilding, e) = .ok ((), (sb, e))) :
    result (resetQRegSpecWith env resetInner) (q, e) =
      .ok ((), ({ core := q.core.cleared, stringbuilding := sb }, e)) := by
  apply result_eq_iff_wp.mpr
  simp only [resetQRegSpecWith, wp_bind, wp_getSpec, wp_ite, wp_undoSpec,
    wp_modifySpec, wp_zoom, ite_self]
  have hwp := result_eq_iff_wp.mp hinner
  apply wp_mono hwp
  · intro _ t ht
    injection ht with ht
    injection ht with _ ht
    rw [<- ht]
    rfl
  · intro _ _ h
    cases h
  · intro _ h
    cases h

theorem result_resetStringBuilding (sb : StringBuilding Reg) (e : Editor W) :
    result (resetStringBuilding env sb) (sb, e) =
      .ok ((), (sb.cleared, e)) := by
  induction sb with
  | plain core =>
      apply result_eq_iff_wp.mpr
      simp [resetStringBuilding, resetStringBuildingWith,
        StringBuilding.mapCore, StringBuilding.cleared]
  | withSpec core spec inner ih =>
      have hspec : result
          (resetQRegSpecWith env (resetStringBuilding env inner))
          ({ core := spec, stringbuilding := inner }, e) =
            .ok ((), ({ core := spec.cleared, stringbuilding := inner.cleared },
              e)) := result_resetQRegSpecWith ih
      apply result_eq_iff_wp.mpr
      simp only [resetStringBuilding, resetStringBuildingWith, wp_bind,
        wp_getCore, wp_ite, wp_undoCore, wp_modifyCore, wp_zoom, ite_self]
      apply wp_mono (result_eq_iff_wp.mp hspec)
      · intro _ t ht
        injection ht with ht
        injection ht with _ ht
        rw [<- ht]
        rfl
      · intro _ _ h
        cases h
      · intro _ h
        cases h

theorem result_resetInner {core : SBCore} {spec : SpecCore Reg}
    {inner : StringBuilding Reg} {e : Editor W} :
    result (zoom specLens.left
        (resetQRegSpecWith env (resetStringBuilding env inner)))
        (.withSpec core spec inner, e) =
      .ok ((), (.withSpec core spec.cleared inner.cleared, e)) := by
  have hspec : result (resetQRegSpecWith env (resetStringBuilding env inner))
      ({ core := spec, stringbuilding := inner }, e) =
        .ok ((), ({ core := spec.cleared, stringbuilding := inner.cleared },
          e)) := result_resetQRegSpecWith (result_resetStringBuilding inner e)
  rw [result_zoom]
  show (result (resetQRegSpecWith env (resetStringBuilding env inner))
    ({ core := spec, stringbuilding := inner }, e)).map _ = _
  rw [hspec]
  rfl

/-- An unused machine is as good as a new one. -/
theorem respects_prepareSpec
    (hcodepages : forall n, codepages n ->
      forall e, host.defaultCodepage e = n) :
    Respects codepages (prepareSpec host env) := by
  rintro ⟨sb, e⟩ ⟨sb', e'⟩ ⟨hmachine, heditor⟩
  have he : e = e' := heditor
  subst he
  unfold prepareSpec
  apply Agree.read
  cases sb with
  | plain c =>
      cases sb' with
      | plain d =>
          have hc : c = d := hmachine
          subst hc
          exact Agree.modify { machine := .refl _, editor := rfl }
      | withSpec d spec' inner' => exact hmachine.elim
  | withSpec c spec inner =>
      cases sb' with
      | plain d =>
          rcases hmachine with ⟨rfl, n, hn, hspec, hinner⟩
          apply Agree.of_result result_resetInner (result_modify _ _)
          constructor
          · dsimp only
            rw [hcodepages n hn e]
            exact ⟨rfl, hspec.cleared, hinner.cleared⟩
          · rfl
      | withSpec d spec' inner' =>
          rcases hmachine with ⟨rfl, hspec, hinner⟩
          apply Agree.of_result result_resetInner result_resetInner
          exact
            { machine := ⟨rfl, hspec.cleared, hinner.cleared⟩
              editor := rfl }

/-!
## Characters of string building
-/

theorem agree_ctleQRegInput {next : SBState} {kind : Expansion}
    {m n : Exec (SBScope W Reg) (Option (Option Reg × Table))}
    {u s : SBScope W Reg}
    (hm : Agree (fun _ => AlikeSB codepages) m n u s) (result : Bool) :
    Agree (fun _ => AlikeSB codepages)
      (ctleQRegInput next (kind.appended host env) m result)
      (ctleQRegInput next (kind.appended host env) n result) u s := by
  unfold ctleQRegInput
  apply hm.bind
  rintro (_ | ⟨qreg, table⟩) u' s' h
  · exact Agree.pure h
  · dsimp only
    split
    · cases qreg with
      | none => exact Agree.fault _
      | some reg =>
          exact respects_bind (respects_expand kind reg table)
            (fun _ => respects_pure _) u' s' h
    · exact Agree.pure h

theorem agree_sbInputWith
    (hcodepages : forall n, codepages n ->
      forall e, host.defaultCodepage e = n)
    {m n : Exec (SBScope W Reg) (Option (Option Reg × Table))}
    {u s : SBScope W Reg} (h : AlikeSB codepages u s)
    (hm : s.1.core.current.readsSpec = true ->
      Agree (fun _ => AlikeSB codepages) m n u s) (result : Bool)
    (chr : Gunichar) :
    Agree (fun _ => AlikeSB codepages) (sbInputWith host env m result chr)
      (sbInputWith host env n result chr) u s := by
  have hctle : Respects codepages (ctleInput host env result chr) := by
    unfold ctleInput
    apply respects_getCore
    intro core
    cases ctleState chr with
    | none => exact respects_pure _
    | some next =>
        exact respects_bind (respects_prepareSpec hcodepages)
          (fun _ => respects_pure _)
  have hstate : Agree (fun _ => AlikeSB codepages)
      (sbStateInput host env m result chr)
      (sbStateInput host env n result chr) u s := by
    have hread : Agree (fun core u' s' => core = s.1.core ∧ u' = u ∧ s' = s)
        (getCore : Exec (SBScope W Reg) SBCore) getCore u s :=
      ⟨h.machine.core, h.machine.core, rfl, rfl⟩
    unfold sbStateInput
    apply hread.bind
    rintro core u' s' ⟨hcore, hu, hs⟩
    rw [hcore, hu, hs]
    cases hcurrent : s.1.core.current with
    | start => exact respects_sbStartInput result chr _ _ h
    | ctl => exact respects_ctlInput result chr _ _ h
    | escaped => exact respects_escapedInput result chr _ _ h
    | lower =>
        exact respects_caseInput (respects_caseCtlInput 'V' SBMode.lower)
          result chr _ _ h
    | lowerCtl =>
        exact respects_caseCtlInput 'V' SBMode.lower result chr _ _ h
    | upper =>
        exact respects_caseInput (respects_caseCtlInput 'W' SBMode.upper)
          result chr _ _ h
    | upperCtl =>
        exact respects_caseCtlInput 'W' SBMode.upper result chr _ _ h
    | ctle => exact hctle _ _ h
    | ctleNum =>
        exact @agree_ctleQRegInput _ _ host env codepages _ Expansion.num _ _ _
          _ (hm (by rw [hcurrent]; rfl)) result
    | ctleU =>
        exact @agree_ctleQRegInput _ _ host env codepages _ Expansion.u _ _ _
          _ (hm (by rw [hcurrent]; rfl)) result
    | ctleCode => exact respects_ctleCodeInput result chr _ _ h
    | ctleQ =>
        exact @agree_ctleQRegInput _ _ host env codepages _ Expansion.q _ _ _
          _ (hm (by rw [hcurrent]; rfl)) result
    | ctleQuote =>
        exact @agree_ctleQRegInput _ _ host env codepages _ Expansion.quote _ _
          _ _ (hm (by rw [hcurrent]; rfl)) result
    | ctleN =>
        exact @agree_ctleQRegInput _ _ host env codepages _ Expansion.n _ _ _
          _ (hm (by rw [hcurrent]; rfl)) result
  rw [sbInputWith_eq, sbInputWith_eq]
  exact hstate.bind (fun p u' s' h' => respects_enterSB p.1 p.2 u' s' h')

/-!
## Names
-/

/-- The specifications are alike while a character is read. -/
structure AlikeSpec (codepages : Nat -> Prop) (parse : Bool)
    (u s : SpecScope W Reg) : Prop where
  core : u.1.core.Same s.1.core
  parseOnly : u.1.core.parseOnly = parse ∧ s.1.core.parseOnly = parse
  stringbuilding : u.1.stringbuilding.Same codepages s.1.stringbuilding
  editor : u.2 = s.2

/-- A complete specification has the same register. -/
structure AlikeNext (codepages : Nat -> Prop) (parse : Bool) (next : SpecState)
    (u s : SpecScope W Reg) : Prop extends AlikeSpec codepages parse u s where
  result : parse = false -> next = SpecState.start ->
    u.1.core.result = s.1.core.result

/-- Nothing tells the specifications apart. -/
def RespectsSpec {α : Type} (codepages : Nat -> Prop) (parse : Bool)
    (m : Exec (SpecScope W Reg) α) : Prop :=
  forall u s, AlikeSpec codepages parse u s ->
    Agree (fun _ => AlikeSpec codepages parse) m m u s

/-- The next state is entered with the same register. -/
def RespectsNext (codepages : Nat -> Prop) (parse : Bool)
    (m : Exec (SpecScope W Reg) SpecState) : Prop :=
  forall u s, AlikeSpec codepages parse u s ->
    Agree (fun next => AlikeNext codepages parse next) m m u s

theorem respectsNext_pure {next : SpecState} (h : next ≠ SpecState.start) :
    RespectsNext codepages parse
      (pure next : Exec (SpecScope W Reg) SpecState) :=
  fun _ _ halike => Agree.pure
    { halike with result := fun _ hstart => absurd hstart h }

theorem respectsNext_throw (e : TecoError) :
    RespectsNext codepages parse (throw e : Exec (SpecScope W Reg) SpecState) :=
  fun _ _ _ => Agree.throw e

theorem respectsNext_bind {α : Type} {m : Exec (SpecScope W Reg) α}
    {f : α -> Exec (SpecScope W Reg) SpecState}
    (hm : RespectsSpec codepages parse m)
    (hf : forall a, RespectsNext codepages parse (f a)) :
    RespectsNext codepages parse (m >>= f) :=
  fun u s h => Agree.bind (hm u s h) (fun a u' s' h' => hf a u' s' h')

/-- Both read the fields of the specification. -/
theorem agree_getSpec {α : Type}
    {post : α -> SpecScope W Reg -> SpecScope W Reg -> Prop}
    {f g : SpecCore Reg -> Exec (SpecScope W Reg) α} {u s : SpecScope W Reg}
    (h : Agree post (f u.1.core) (g s.1.core) u s) :
    Agree post (getSpec >>= f) (getSpec >>= g) u s := by
  unfold getSpec
  rw [bind_assoc, bind_assoc]
  apply Agree.read
  rw [pure_bind, pure_bind]
  exact h

theorem agree_undoSpec {α : Type}
    {post : α -> SpecScope W Reg -> SpecScope W Reg -> Prop}
    {f g : SpecCore Reg -> SpecCore Reg} {k l : Exec (SpecScope W Reg) α}
    {u s : SpecScope W Reg} (h : Agree post k l u s) :
    Agree post (do undoSpec env f; k) (do undoSpec env g; l) u s := by
  have hundo : Agree (fun _ u' s' => u' = u ∧ s' = s)
      (undoSpec env f : Exec (SpecScope W Reg) Unit) (undoSpec env g) u s := by
    unfold undoSpec undo
    split
    · exact Agree.emit ⟨rfl, rfl⟩
    · exact Agree.pure ⟨rfl, rfl⟩
  apply hundo.bind
  rintro _ u' s' ⟨hu, hs⟩
  rw [hu, hs]
  exact h

theorem agree_modifySpec {α : Type}
    {post : α -> SpecScope W Reg -> SpecScope W Reg -> Prop}
    {f g : SpecCore Reg -> SpecCore Reg} {k l : Exec (SpecScope W Reg) α}
    {u s : SpecScope W Reg}
    (h : Agree post k l ({ u.1 with core := f u.1.core }, u.2)
      ({ s.1 with core := g s.1.core }, s.2)) :
    Agree post (do modifySpec f; k) (do modifySpec g; l) u s := by
  have hmodify : Agree (fun _ u' s' =>
        u' = ({ u.1 with core := f u.1.core }, u.2) ∧
          s' = ({ s.1 with core := g s.1.core }, s.2))
      (modifySpec f : Exec (SpecScope W Reg) Unit) (modifySpec g) u s :=
    Agree.modify ⟨rfl, rfl⟩
  apply hmodify.bind
  rintro _ u' s' ⟨hu, hs⟩
  rw [hu, hs]
  exact h

/-- A register is created for both. -/
theorem respectsNext_create (m : Exec (Editor W) Reg) :
    RespectsNext codepages parse (do
      let reg <- onEditor m
      modifySpec (fun c => { c with result := some reg })
      pure SpecState.start) := by
  intro u s h
  apply (agree_onEditor h.editor m).bind
  rintro reg u' s' ⟨hu, hs, he⟩
  apply agree_modifySpec
  apply Agree.pure
  exact
    { core := by rw [hu, hs]; exact { h.core with }
      parseOnly := by rw [hu, hs]; exact h.parseOnly
      stringbuilding := by rw [hu, hs]; exact h.stringbuilding
      editor := he
      result := fun _ _ => rfl }

/-- The register is looked up in the same table. -/
theorem respectsNext_specDone :
    RespectsNext codepages parse (specDone host) := by
  intro u s h
  unfold specDone
  apply agree_getSpec
  rw [h.parseOnly.1, h.parseOnly.2]
  split
  · next hparse =>
      apply Agree.pure
      exact
        { h with
          result := fun hfalse _ =>
            absurd (hparse.symm.trans hfalse) (by decide) }
  · apply Agree.read
    rw [h.core.resultTable, h.core.name, h.core.type, h.editor]
    apply agree_modifySpec
    split
    · exact Agree.throw _
    · refine respectsNext_create _ _ _ ?_
      exact { h with core := { h.core with } }
    · apply Agree.pure
      exact
        { core := { h.core with }
          parseOnly := h.parseOnly
          stringbuilding := h.stringbuilding
          editor := h.editor
          result := fun _ _ => rfl }

theorem respectsSpec_specAppend (chr : Gunichar) :
    RespectsSpec codepages parse
      (specAppend env chr : Exec (SpecScope W Reg) _) := by
  intro u s h
  unfold specAppend
  apply agree_getSpec
  rw [h.parseOnly.1, h.parseOnly.2]
  split
  · exact Agree.pure h
  · apply agree_undoSpec
    apply Agree.modify
    exact
      { h with
        core :=
          { h.core with
            name := congrArg (fun name => name ++ _) h.core.name } }

theorem respectsNext_appendDone (chr : Gunichar) :
    RespectsNext codepages parse (do
      specAppend env chr
      specDone host) :=
  respectsNext_bind (respectsSpec_specAppend chr)
    (fun _ => respectsNext_specDone)

theorem AlikeSpec.nesting {u s : SpecScope W Reg}
    (h : AlikeSpec codepages parse u s) (change : Int -> Int) :
    AlikeSpec codepages parse
      ({ u.1 with
        core := { u.1.core with nesting := change u.1.core.nesting } }, u.2)
      ({ s.1 with
        core := { s.1.core with nesting := change s.1.core.nesting } }, s.2) :=
  { h with core := { h.core with nesting := congrArg change h.core.nesting } }

theorem respectsNext_specStartGlobalInput (chr : Gunichar) :
    RespectsNext codepages parse (specStartGlobalInput host env chr) := by
  intro u s h
  unfold specStartGlobalInput
  apply agree_getSpec
  split
  · exact respectsNext_pure (by decide) u s h
  · exact respectsNext_pure (by decide) u s h
  · apply agree_undoSpec
    apply agree_modifySpec
    exact respectsNext_pure (by decide) _ _ (h.nesting (fun n => n + 1))
  · exact respectsNext_appendDone _ u s h

theorem respectsNext_specStartInput (chr : Gunichar) :
    RespectsNext codepages parse (specStartInput host env chr) := by
  intro u s h
  unfold specStartInput
  apply agree_getSpec
  split
  · apply agree_undoSpec
    apply agree_modifySpec
    refine respectsNext_pure (by decide) _ _ ?_
    exact { h with core := { h.core with resultTable := rfl } }
  · exact respectsNext_specStartGlobalInput chr u s h

theorem respectsNext_specCaretInput (chr : Gunichar) :
    RespectsNext codepages parse (specCaretInput host env chr) := by
  unfold specCaretInput
  split
  · exact respectsNext_throw _
  · exact respectsNext_appendDone _

/-- The characters of the name are read by inner machines which agree. -/
theorem agree_stringFeed {spec spec' : SpecCore Reg}
    {innerInput innerInput' : Bool -> Exec (SBScope W Reg) Bytes}
    {u s : SpecScope W Reg} (h : AlikeSpec codepages parse u s)
    (hparse : spec.parseOnly = spec'.parseOnly)
    (hinner : Agree (fun _ => AlikeSB codepages)
      (innerInput (!spec'.parseOnly)) (innerInput' (!spec'.parseOnly))
      (u.1.stringbuilding, u.2) (s.1.stringbuilding, s.2)) :
    Agree (fun next => AlikeNext codepages parse next)
      (stringFeed env spec innerInput) (stringFeed env spec' innerInput')
      u s := by
  have hrest : Agree (fun next => AlikeNext codepages parse next)
      (do
        let text <- zoom innerLens.left (innerInput (!spec'.parseOnly))
        modifySpec (fun c => { c with name := c.name ++ text })
        pure SpecState.string)
      (do
        let text <- zoom innerLens.left (innerInput' (!spec'.parseOnly))
        modifySpec (fun c => { c with name := c.name ++ text })
        pure SpecState.string) u s := by
    have hzoom : Agree (fun _ => AlikeSpec codepages parse)
        (zoom innerLens.left (innerInput (!spec'.parseOnly)))
        (zoom innerLens.left (innerInput' (!spec'.parseOnly))) u s := by
      apply hinner.zoom
      intro _ v w hv
      exact
        { core := h.core
          parseOnly := h.parseOnly
          stringbuilding := hv.machine
          editor := hv.editor }
    apply hzoom.bind
    intro text u' s' h'
    apply agree_modifySpec
    refine respectsNext_pure (by decide) _ _ ?_
    exact
      { h' with
        core :=
          { h'.core with
            name := congrArg (fun name => name ++ text) h'.core.name } }
  unfold stringFeed
  rw [hparse]
  split
  · exact hrest
  · exact agree_undoSpec hrest

theorem agree_specStringInput
    {innerInput innerInput' : Bool -> Exec (SBScope W Reg) Bytes}
    {u s : SpecScope W Reg} (h : AlikeSpec codepages parse u s)
    (hinner : forall result, Agree (fun _ => AlikeSB codepages)
      (innerInput result) (innerInput' result)
      (u.1.stringbuilding, u.2) (s.1.stringbuilding, s.2)) (chr : Gunichar) :
    Agree (fun next => AlikeNext codepages parse next)
      (specStringInput host env innerInput chr)
      (specStringInput host env innerInput' chr) u s := by
  have hfeed (u' s' : SpecScope W Reg) (h' : AlikeSpec codepages parse u' s')
      (hu : u'.1.stringbuilding = u.1.stringbuilding)
      (hs : s'.1.stringbuilding = s.1.stringbuilding)
      (heu : u'.2 = u.2) (hes : s'.2 = s.2) :
      Agree (fun next => AlikeNext codepages parse next)
        (stringFeed env u.1.core innerInput)
        (stringFeed env s.1.core innerInput') u' s' := by
    apply agree_stringFeed h' (h.parseOnly.1.trans h.parseOnly.2.symm)
    rw [hu, hs, heu, hes]
    exact hinner _
  unfold specStringInput
  apply Agree.read
  dsimp only
  rw [h.stringbuilding.core]
  split
  · apply agree_undoSpec
    apply agree_modifySpec
    exact hfeed _ _ (h.nesting (fun n => n + 1)) rfl rfl rfl rfl
  · split
    · apply agree_undoSpec
      apply agree_modifySpec
      have hnext := h.nesting (fun n => n - 1)
      by_cases hzero : s.1.core.nesting - 1 = 0
      · rw [if_pos hzero, if_pos (h.core.nesting ▸ hzero)]
        exact respectsNext_specDone _ _ hnext
      · rw [if_neg hzero, if_neg (h.core.nesting ▸ hzero)]
        exact hfeed _ _ hnext rfl rfl rfl rfl
    · exact hfeed u s h rfl rfl rfl rfl

theorem agree_specStateInput
    {innerInput innerInput' : Bool -> Exec (SBScope W Reg) Bytes}
    {u s : SpecScope W Reg} (h : AlikeSpec codepages parse u s)
    (hinner : forall result, Agree (fun _ => AlikeSB codepages)
      (innerInput result) (innerInput' result)
      (u.1.stringbuilding, u.2) (s.1.stringbuilding, s.2)) (chr : Gunichar) :
    Agree (fun next => AlikeNext codepages parse next)
      (specStateInput host env innerInput chr)
      (specStateInput host env innerInput' chr) u s := by
  unfold specStateInput
  apply agree_getSpec
  rw [h.core.current]
  cases s.1.core.current with
  | start => exact respectsNext_specStartInput chr u s h
  | startGlobal => exact respectsNext_specStartGlobalInput chr u s h
  | caret => exact respectsNext_specCaretInput chr u s h
  | firstchar =>
      exact respectsNext_bind (respectsSpec_specAppend _)
        (fun _ => respectsNext_pure (by decide)) u s h
  | secondchar => exact respectsNext_appendDone _ u s h
  | string => exact agree_specStringInput h hinner chr

/-- A character leads to the same register. -/
theorem agree_specInput
    {innerInput innerInput' : Bool -> Exec (SBScope W Reg) Bytes}
    {u s : SpecScope W Reg} (h : u.1.Same codepages s.1) (he : u.2 = s.2)
    (hinner : forall result, Agree (fun _ => AlikeSB codepages)
      (innerInput result) (innerInput' result)
      (u.1.stringbuilding, u.2) (s.1.stringbuilding, s.2))
    (wanted : Bool) (chr : Gunichar) :
    Agree (fun _ => AlikeSpec codepages (!wanted))
      (specInput host env wanted innerInput chr)
      (specInput host env wanted innerInput' chr) u s := by
  have halike : AlikeSpec codepages (!wanted)
      ({ u.1 with core := { u.1.core with parseOnly := !wanted } }, u.2)
      ({ s.1 with core := { s.1.core with parseOnly := !wanted } }, s.2) :=
    { core := { h.core with }
      parseOnly := ⟨rfl, rfl⟩
      stringbuilding := h.stringbuilding
      editor := he }
  have hlast (u' s' : SpecScope W Reg)
      (h' : AlikeSpec codepages (!wanted) u' s')
      (hresult : wanted = true -> s'.1.core.current = SpecState.start ->
        u'.1.core.result = s'.1.core.result) :
      Agree (fun _ => AlikeSpec codepages (!wanted))
        (do
          let spec <- getSpec
          if spec.current = SpecState.start then
            pure (some
              (if wanted then spec.result else none, spec.resultTable))
          else
            pure none)
        (do
          let spec <- getSpec
          if spec.current = SpecState.start then
            pure (some
              (if wanted then spec.result else none, spec.resultTable))
          else
            pure none) u' s' := by
    apply agree_getSpec
    rw [h'.core.current, h'.core.resultTable]
    by_cases hstart : s'.1.core.current = SpecState.start
    · rw [if_pos hstart, if_pos hstart]
      cases wanted with
      | true =>
          rw [hresult rfl hstart]
          exact Agree.pure h'
      | false => exact Agree.pure h'
    · rw [if_neg hstart, if_neg hstart]
      exact Agree.pure h'
  unfold specInput
  apply agree_modifySpec
  apply (agree_specStateInput halike hinner chr).bind
  intro next u' s' h'
  apply agree_getSpec
  rw [h'.core.current]
  by_cases hnext : next ≠ s'.1.core.current
  · rw [if_pos hnext]
    apply agree_undoSpec
    apply agree_modifySpec
    apply hlast
    · exact { h' with core := { h'.core with current := rfl } }
    · intro hwanted hstart
      exact h'.result (by rw [hwanted]; rfl) hstart
  · rw [if_neg hnext]
    apply hlast u' s' { h' with }
    intro hwanted hstart
    exact h'.result (by rw [hwanted]; rfl) ((of_not_not hnext).trans hstart)

/-!
## Whole machines
-/

/-- A character is read alike by machines of any depth. -/
theorem agree_sbInputOf
    (hcodepages : forall n, codepages n ->
      forall e, host.defaultCodepage e = n)
    {sb sb' : StringBuilding Reg} (h : sb.Same codepages sb')
    (hwf : sb'.WellFormed) (e : Editor W) (result : Bool) (chr : Gunichar) :
    Agree (fun _ => AlikeSB codepages) (sbInputOf host env chr sb result)
      (sbInputOf host env chr sb' result) (sb, e) (sb', e) := by
  have halike : AlikeSB codepages (sb, e) (sb', e) :=
    { machine := h
      editor := rfl }
  induction sb generalizing sb' e result with
  | plain c =>
      cases sb' with
      | plain d =>
          exact agree_sbInputWith hcodepages halike (fun _ => Agree.fault _)
            result chr
      | withSpec d spec' inner' => exact h.elim
  | withSpec c spec inner ih =>
      cases sb' with
      | plain d =>
          apply agree_sbInputWith hcodepages halike
          intro hreads
          exact absurd (hwf.1.symm.trans hreads) (by decide)
      | withSpec d spec' inner' =>
          apply agree_sbInputWith hcodepages halike
          intro _
          rcases h with ⟨hcore, hspec, hinner⟩
          have hspecs := @agree_specInput _ _ host env codepages
            (sbInputOf host env chr inner) (sbInputOf host env chr inner')
            ({ core := spec, stringbuilding := inner }, e)
            ({ core := spec', stringbuilding := inner' }, e)
            { core := hspec, stringbuilding := hinner } rfl
            (fun result => ih hinner hwf.1 e result
              { machine := hinner, editor := rfl }) result chr
          apply hspecs.zoom
          intro _ v w hv
          exact
            { machine := ⟨hcore, hv.core, hv.stringbuilding⟩
              editor := hv.editor }

theorem agree_qregSpecInput
    (hcodepages : forall n, codepages n ->
      forall e, host.defaultCodepage e = n)
    {q q' : QRegSpec Reg} (h : q.Same codepages q')
    (hwf : q'.stringbuilding.WellFormed) (e : Editor W) (wanted : Bool)
    (chr : Gunichar) :
    Agree (fun _ => AlikeSpec codepages (!wanted))
      (qregSpecInput host env wanted chr) (qregSpecInput host env wanted chr)
      (q, e) (q', e) := by
  have hspec := @agree_specInput _ _ host env codepages
    (sbInputOf host env chr q.stringbuilding)
    (sbInputOf host env chr q'.stringbuilding) (q, e) (q', e) h rfl
    (fun result => agree_sbInputOf hcodepages h.stringbuilding hwf e result chr)
    wanted chr
  exact hspec

/-- The string building machine of a specification remains well-formed. -/
theorem wellFormed_qregSpecInput {q : QRegSpec Reg}
    (hwf : q.stringbuilding.WellFormed) (e : Editor W) (wanted : Bool)
    (chr : Gunichar) :
    wp (qregSpecInput host env wanted chr)
      (fun _ t => t.1.stringbuilding.WellFormed) (fun _ _ => True)
      (fun _ => True) (q, e) := by
  have hspec := @wp_specInput _ _ env host
    (sbInputOf host env chr q.stringbuilding) wanted chr q e hwf
    (wp_sbInputOf chr q.stringbuilding wanted e hwf)
  show wp (specInput host env wanted (sbInputOf host env chr q.stringbuilding)
    chr) _ _ _ (q, e)
  exact wp_mono hspec (fun _ _ ht => ht.1) (fun _ _ _ => trivial)
    (fun _ _ => trivial)

/-- Read characters until the specification is complete. -/
def readSpec (host : Host W Reg) (env : Env) (wanted : Bool) :
    List Gunichar -> Exec (SpecScope W Reg) (Option (Option Reg × Table))
  | [] => pure none
  | chr :: rest => do
      let status <- qregSpecInput host env wanted chr
      match status with
      | none => readSpec host env wanted rest
      | some found => pure (some found)

/-- The rest of a specification denotes the same register. -/
theorem agree_readSpec
    (hcodepages : forall n, codepages n ->
      forall e, host.defaultCodepage e = n)
    {q q' : QRegSpec Reg} (h : q.Same codepages q')
    (hwf : q'.stringbuilding.WellFormed) (e : Editor W) (wanted : Bool)
    (chars : List Gunichar) :
    Agree (fun _ _ _ => True) (readSpec host env wanted chars)
      (readSpec host env wanted chars) (q, e) (q', e) := by
  induction chars generalizing q q' e with
  | nil => exact Agree.pure trivial
  | cons chr rest ih =>
      have hagree : Agree _ (qregSpecInput host env wanted chr)
          (qregSpecInput host env wanted chr) (q, e) (q', e) :=
        agree_qregSpecInput hcodepages h hwf e wanted chr
      have hchar := hagree.wp_right (wellFormed_qregSpecInput hwf e wanted chr)
      apply hchar.bind
      rintro (_ | found) ⟨p, ep⟩ ⟨p', ep'⟩ ⟨halike, hwf'⟩
      · have heditor : ep = ep' := halike.editor
        subst heditor
        exact ih
          { core := halike.core
            stringbuilding := halike.stringbuilding }
          hwf' ep
      · exact Agree.pure trivial

/-!
## Undone runs
-/

theorem StringBuilding.WellFormed.cleared {sb : StringBuilding Reg}
    (h : sb.WellFormed) : sb.cleared.WellFormed := by
  induction sb with
  | plain core => exact ⟨rfl, fun _ => rfl⟩
  | withSpec core spec inner ih => exact ⟨ih h.1, fun _ => rfl⟩

/-- Machines remain well-formed. -/
theorem wellFormed_runSpecOps {q : QRegSpec Reg}
    (hwf : q.stringbuilding.WellFormed) (e : Editor W) (ops : List SpecOp) :
    wp (runSpecOps host env ops)
      (fun _ t => t.1.stringbuilding.WellFormed) (fun _ _ => True)
      (fun _ => True) (q, e) := by
  induction ops generalizing q e with
  | nil => exact hwf
  | cons op ops ih =>
      rw [runSpecOps, wp_bind]
      cases op with
      | input wanted chr =>
          rw [runSpecOp, wp_bind]
          apply wp_call (wellFormed_qregSpecInput hwf e wanted chr)
          intro _ t ht
          exact ih ht t.2
      | reset =>
          have hreset : result (qregSpecReset env) (q, e) =
              .ok ((), ({
                core := q.core.cleared
                stringbuilding := q.stringbuilding.cleared }, e)) :=
            result_resetQRegSpecWith
              (result_resetStringBuilding q.stringbuilding e)
          apply wp_of_result
          intro _ t ht
          have heq := hreset.symm.trans ht
          injection heq with heq
          injection heq with _ heq
          rw [<- heq]
          exact ih hwf.cleared e

/-- The machine has gone back, and it goes on like before: as the default
codepage does not change, the same register is read. -/
structure Undone (host : Host W Reg) (env : Env) (s u : SpecScope W Reg) :
    Prop where
  current : u.1.core.current = s.1.core.current
  name : u.1.core.name = s.1.core.name
  nesting : u.1.core.nesting = s.1.core.nesting
  resultTable : u.1.core.resultTable = s.1.core.resultTable
  denotes : (forall e e', host.defaultCodepage e = host.defaultCodepage e') ->
    forall (e : Editor W) (wanted : Bool) (chars : List Gunichar),
      (result (readSpec host env wanted chars) (u.1, e)).map Prod.fst =
        (result (readSpec host env wanted chars) (s.1, e)).map Prod.fst

/-- The tokens of what has been done after a point lead back to it. -/
def TakenBack (host : Host W Reg) (env : Env) (ops : List SpecOp)
    (s : SpecScope W Reg) : Prop :=
  match runSpecOps host env ops s with
  | .ok _ t tokens => Undone host env s (unwind tokens t)
  | .error _ t tokens => Undone host env s (unwind tokens t)
  | .fault _ => True

theorem undone_of_restored {s u : SpecScope W Reg}
    (hwf : s.1.stringbuilding.WellFormed)
    (h : RestoredSpec (fun _ => True) u s)
    (hsame : (forall e e', host.defaultCodepage e = host.defaultCodepage e') ->
      RestoredSpec (fun n => forall e, host.defaultCodepage e = n) u s) :
    Undone host env s u :=
  { current := h.core.current
    name := h.core.name
    nesting := h.core.nesting
    resultTable := h.core.resultTable
    denotes := fun hconstant e wanted chars =>
      (agree_readSpec (fun _ hn => hn) (hsame hconstant) hwf e wanted
        chars).value }

/-- Runs in which machines are reset while their tables are global are undone
exactly. -/
theorem spec_takenBack (hundo : env.mustUndo = true) {type : QRegType}
    {codepage : Nat} {e : Editor W} {before after : List SpecOp}
    {s : SpecScope W Reg} {tokens : List (SpecScope W Reg -> SpecScope W Reg)}
    (hbefore : runSpecOps host env before (QRegSpec.new type codepage, e) =
      .ok () s tokens)
    (hready : ReadyRun host env after s) : TakenBack host env after s := by
  have hwf : s.1.stringbuilding.WellFormed := by
    have hnew : (QRegSpec.new type codepage :
        QRegSpec Reg).stringbuilding.WellFormed := ⟨rfl, nofun⟩
    have hrun := wp_ok (wellFormed_runSpecOps hnew e before) hbefore
    exact hrun
  have hany : RestoresAt (RestoredSpec (fun _ => True))
      (runSpecOps host env after) s :=
    restoresAt_runSpecOps hundo (fun _ => trivial) hready
  have hsame (hconstant : forall e e',
      host.defaultCodepage e = host.defaultCodepage e') :
      RestoresAt (RestoredSpec (fun n => forall e, host.defaultCodepage e = n))
        (runSpecOps host env after) s :=
    restoresAt_runSpecOps hundo (fun e e' => hconstant e' e) hready
  unfold RestoresAt at hany hsame
  unfold TakenBack
  cases hrun : runSpecOps host env after s with
  | ok _ t later =>
      rw [hrun] at hany hsame
      exact undone_of_restored hwf (hany t (.refl t.1))
        (fun hconstant => hsame hconstant t (.refl t.1))
  | error err t later =>
      rw [hrun] at hany hsame
      exact undone_of_restored hwf (hany t (.refl t.1))
        (fun hconstant => hsame hconstant t (.refl t.1))
  | fault c => trivial

/-- A macro with its own local registers. -/
def localEnv : Env :=
  { sampleEnv [] 0 0 with locals := Table.locals 1 }

/-- The machine behind the given characters. -/
def specBehind (chars : List Gunichar) : SpecScope SampleWorld SampleReg :=
  match runSpecOps sampleHost localEnv
      (chars.map (fun chr => SpecOp.input true chr))
      (QRegSpec.new QRegType.required codepageUtf8, sampleStart.editor) with
  | .ok _ s _ => s
  | _ => (QRegSpec.new QRegType.required codepageUtf8, sampleStart.editor)

/-- A long name is taken back. -/
theorem spec_takenBack_brackets :
    TakenBack sampleHost localEnv
      [SpecOp.input true '_'.toNat, SpecOp.input true ']'.toNat, SpecOp.reset]
      (specBehind ['['.toNat]) :=
  @spec_takenBack _ _ _ _ rfl QRegType.required codepageUtf8 sampleStart.editor
    [SpecOp.input true '['.toNat] _ _ _ rfl
    ⟨fun _ => trivial, fun _ => trivial, ⟨rfl, trivial⟩, trivial⟩

/-- The table of a local register is lost once the next construct is taken
back. -/
theorem spec_lost_table :
    (specBehind ['.'.toNat]).1.core.resultTable = Table.locals 1 ∧
      ¬ TakenBack sampleHost localEnv
        [SpecOp.input true '_'.toNat, SpecOp.reset]
        (specBehind ['.'.toNat]) := by
  refine ⟨rfl, ?_⟩
  intro h
  have htable := Undone.resultTable h
  revert htable
  decide

end Parser
end SciTECO
