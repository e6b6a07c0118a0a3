import SciTECO.Lib.Agree
import SciTECO.Lib.Restore
import SciTECO.Parser.Expansion

/-!
# Undoing Q-Register specifications

The machine which reads a register name saves its fields one by one.  The table
is not saved when the machine is reset.
-/

namespace SciTECO
namespace Parser

open Undoable
open QReg (Table)

variable {W Reg : Type}

/-!
## Restored machines
-/

/-- The fields which the machine reads: `parse_only` is set with every
character, and `result` with every name. -/
structure SpecCore.Same (a b : SpecCore Reg) : Prop where
  current : a.current = b.current
  type : a.type = b.type
  nesting : a.nesting = b.nesting
  name : a.name = b.name
  resultTable : a.resultTable = b.resultTable

theorem SpecCore.Same.refl (a : SpecCore Reg) : a.Same a :=
  { current := rfl
    type := rfl
    nesting := rfl
    name := rfl
    resultTable := rfl }

/-- A machine like another one.  It may have an inner machine which has not been
used, and which has been allocated with one of the given codepages. -/
def StringBuilding.Same (codepages : Nat -> Prop) :
    StringBuilding Reg -> StringBuilding Reg -> Prop
  | .plain c, .plain d => c = d
  | .withSpec c spec inner, .plain d =>
      c = d ∧ exists codepage, codepages codepage ∧
        spec.Same (QRegSpec.new QRegType.required codepage).core ∧
        inner.Same codepages (StringBuilding.init '['.toNat codepage)
  | .withSpec c spec inner, .withSpec d spec' inner' =>
      c = d ∧ spec.Same spec' ∧ inner.Same codepages inner'
  | .plain _, .withSpec _ _ _ => False

structure QRegSpec.Same (codepages : Nat -> Prop) (q q' : QRegSpec Reg) :
    Prop where
  core : q.core.Same q'.core
  stringbuilding : q.stringbuilding.Same codepages q'.stringbuilding

/-- The machines are alike, whatever becomes of the editor. -/
def RestoredSB (codepages : Nat -> Prop) (s t : SBScope W Reg) : Prop :=
  s.1.Same codepages t.1

def RestoredSpec (codepages : Nat -> Prop) (s t : SpecScope W Reg) : Prop :=
  s.1.Same codepages t.1

theorem StringBuilding.Same.refl {codepages : Nat -> Prop}
    (sb : StringBuilding Reg) : sb.Same codepages sb := by
  induction sb with
  | plain core => rfl
  | withSpec core spec inner ih => exact ⟨rfl, .refl spec, ih⟩

theorem StringBuilding.Same.core {codepages : Nat -> Prop}
    {sb sb' : StringBuilding Reg} (h : sb.Same codepages sb') :
    sb.core = sb'.core := by
  cases sb <;> cases sb'
  case plain.plain => exact h
  case withSpec.plain => exact h.1
  case withSpec.withSpec => exact h.1
  case plain.withSpec => exact h.elim

theorem StringBuilding.Same.mapCore {codepages : Nat -> Prop}
    {sb sb' : StringBuilding Reg} {f g : SBCore -> SBCore}
    (h : sb.Same codepages (sb'.mapCore g))
    (hcore : f (g sb'.core) = sb'.core) :
    (sb.mapCore f).Same codepages sb' := by
  cases sb <;> cases sb'
  case plain.plain c d =>
      have hc : c = g d := h
      rw [hc]
      exact hcore
  case withSpec.plain c spec inner d =>
      rcases h with ⟨hc, hrest⟩
      exact ⟨by rw [hc]; exact hcore, hrest⟩
  case withSpec.withSpec c spec inner d spec' inner' =>
      rcases h with ⟨hc, hrest⟩
      exact ⟨by rw [hc]; exact hcore, hrest⟩
  case plain.withSpec => exact h.elim

theorem QRegSpec.Same.refl {codepages : Nat -> Prop} (q : QRegSpec Reg) :
    q.Same codepages q :=
  { core := .refl q.core
    stringbuilding := .refl q.stringbuilding }

/-!
## Tokens of the machines
-/

section Restoring

variable {host : Host W Reg} {env : Env} {codepages : Nat -> Prop}

theorem restoresAt_true {σ α : Type} (m : Exec σ α) (s : σ) :
    RestoresAt (fun _ _ => True) m s := by
  unfold RestoresAt
  cases m s with
  | ok a t tokens => exact fun _ _ => trivial
  | error e t tokens => exact fun _ _ => trivial
  | fault c => trivial

/-- Nothing in the editor belongs to a machine. -/
theorem restoresAt_onEditor {ρ α : Type} {same : ρ -> ρ -> Prop}
    (m : Exec (Editor W) α) (s : ρ × Editor W) :
    RestoresAt (fun u t => same u.1 t.1) (onEditor m) s := by
  unfold onEditor
  apply RestoresAt.zoom (restoresAt_true m s.2)
  · exact fun _ _ => rfl
  · exact fun _ _ _ => rfl
  · exact fun _ _ _ => ⟨rfl, trivial⟩
  · exact fun _ _ _ h _ => h

theorem restoresAt_getCore {α : Type}
    {r : SBScope W Reg -> SBScope W Reg -> Prop}
    {f : SBCore -> Exec (SBScope W Reg) α} {s : SBScope W Reg}
    (h : RestoresAt r (f s.1.core) s) : RestoresAt r (getCore >>= f) s := by
  apply RestoresAt.bind
  · exact RestoresAt.of_ok rfl (fun _ hu => hu)
  · intro core t tokens hrun
    cases hrun
    exact h

theorem restoresAt_getSpec {α : Type}
    {r : SpecScope W Reg -> SpecScope W Reg -> Prop}
    {f : SpecCore Reg -> Exec (SpecScope W Reg) α} {s : SpecScope W Reg}
    (h : RestoresAt r (f s.1.core) s) : RestoresAt r (getSpec >>= f) s := by
  apply RestoresAt.bind
  · exact RestoresAt.of_ok rfl (fun _ hu => hu)
  · intro core t tokens hrun
    cases hrun
    exact h

theorem undo_eq {σ : Type} (hundo : env.mustUndo = true) (token : σ -> σ) :
    (undo env token : Exec σ Unit) = emit token := if_pos hundo

/-- A field of the machine is changed after it has been saved. -/
theorem restoresAt_saveCore (hundo : env.mustUndo = true)
    {f g : SBCore -> SBCore} {s : SBScope W Reg}
    (h : f (g s.1.core) = s.1.core) :
    RestoresAt (RestoredSB codepages) (do
      undoCore env f
      modifyCore g) s := by
  unfold undoCore modifyCore
  rw [undo_eq hundo]
  apply Restores.change
  intro u hu
  exact StringBuilding.Same.mapCore hu h

theorem restoresAt_savedCore {α : Type} (hundo : env.mustUndo = true)
    {f g : SBCore -> SBCore} {k : Exec (SBScope W Reg) α} {s : SBScope W Reg}
    (h : f (g s.1.core) = s.1.core)
    (hk : RestoresAt (RestoredSB codepages) k (s.1.mapCore g, s.2)) :
    RestoresAt (RestoredSB codepages) (do
      undoCore env f
      modifyCore g
      k) s := by
  have hbind : (do undoCore env f; modifyCore g; k) =
      ((do undoCore env f; modifyCore g) >>= fun _ => k) := by
    rw [bind_assoc]
  rw [hbind]
  apply (restoresAt_saveCore hundo h).bind
  intro _ t _ hrun
  unfold undoCore modifyCore at hrun
  rw [undo_eq hundo] at hrun
  cases hrun
  exact hk

/-- The next state of the machine is entered. -/
theorem restoresAt_enterSB (hundo : env.mustUndo = true) (next : SBState)
    (text : Bytes) (s : SBScope W Reg) :
    RestoresAt (RestoredSB codepages) (enterSB env next text) s := by
  unfold enterSB
  apply restoresAt_getCore
  split
  · exact restoresAt_savedCore hundo rfl (Restores.pure text _)
  · exact Restores.pure text s

theorem restores_pure {α : Type} (a : α) (s : SBScope W Reg) :
    RestoresAt (RestoredSB codepages) (pure a : Exec (SBScope W Reg) α) s :=
  Restores.pure a s

theorem restoresAt_escapedInput (result : Bool) (chr : Gunichar)
    (s : SBScope W Reg) :
    RestoresAt (RestoredSB codepages) (escapedInput host result chr) s := by
  unfold escapedInput
  apply restoresAt_getCore
  split
  · exact restores_pure _ s
  · exact restores_pure _ s

theorem restoresAt_ctlInput (hundo : env.mustUndo = true) (result : Bool)
    (chr : Gunichar) (s : SBScope W Reg) :
    RestoresAt (RestoredSB codepages) (ctlInput env result chr) s := by
  unfold ctlInput
  apply restoresAt_getCore
  split
  case h_2 =>
      exact restoresAt_savedCore hundo rfl (restores_pure _ _)
  case h_8 => split <;> exact restores_pure _ s
  all_goals exact restores_pure _ s

theorem restoresAt_sbStartInput (hundo : env.mustUndo = true) (result : Bool)
    (chr : Gunichar) (s : SBScope W Reg) :
    RestoresAt (RestoredSB codepages) (sbStartInput host env result chr) s := by
  unfold sbStartInput
  apply restoresAt_getCore
  split
  · exact restoresAt_escapedInput result chr s
  · split
    · exact restores_pure _ s
    · split
      · exact restoresAt_escapedInput result chr s
      · split
        · exact restoresAt_ctlInput hundo result _ s
        · exact restoresAt_escapedInput result chr s

theorem restoresAt_caseCtlInput (hundo : env.mustUndo = true) (key : Char)
    (mode : SBMode) (result : Bool) (chr : Gunichar) (s : SBScope W Reg) :
    RestoresAt (RestoredSB codepages) (caseCtlInput env key mode result chr)
      s := by
  unfold caseCtlInput
  apply restoresAt_getCore
  split
  · split
    · exact restoresAt_savedCore hundo rfl (restores_pure _ _)
    · exact restores_pure _ s
  · exact restores_pure _ s

theorem restoresAt_caseInput {ctlState : SBState}
    {ctl : Bool -> Gunichar -> Exec (SBScope W Reg) (SBState × Bytes)}
    {fold : Gunichar -> Gunichar}
    (hctl : forall result chr s,
      RestoresAt (RestoredSB codepages) (ctl result chr) s)
    (result : Bool) (chr : Gunichar) (s : SBScope W Reg) :
    RestoresAt (RestoredSB codepages) (caseInput ctlState ctl fold result chr)
      s := by
  unfold caseInput
  apply restoresAt_getCore
  split
  · exact restores_pure _ s
  · split
    · exact hctl result _ s
    · exact restores_pure _ s

theorem restoresAt_ctleCodeInput (hundo : env.mustUndo = true)
    (result : Bool) (chr : Gunichar) (s : SBScope W Reg) :
    RestoresAt (RestoredSB codepages) (ctleCodeInput host env result chr)
      s := by
  unfold ctleCodeInput
  apply restoresAt_getCore
  split
  · split
    · split
      · exact Restores.throw _ s
      · split
        · exact Restores.throw _ s
        · exact restoresAt_savedCore hundo rfl (restores_pure _ _)
    · exact restores_pure _ s
  · split
    · refine restoresAt_savedCore hundo ?_ (restores_pure _ _)
      simp
    · exact restores_pure _ s

/-- What is appended for a register is a matter of the editor. -/
theorem restoresAt_expand (kind : Expansion) (reg : Reg) (table : Table)
    (s : SBScope W Reg) :
    RestoresAt (RestoredSB codepages) (kind.appended host env reg table) s := by
  have hquoted (quote : Bytes -> Bytes) :
      RestoresAt (RestoredSB codepages) (expandQuoted host quote reg table)
        s := by
    unfold expandQuoted
    apply (restoresAt_onEditor _ s).bind
    intro contents t _ _
    split
    · exact Restores.throw _ t
    · apply restoresAt_getCore
      exact restores_pure _ t
  cases kind with
  | num =>
      apply (restoresAt_onEditor _ s).bind
      intro value t _ _
      apply (Restores.get t).bind
      intro _ u _ hget
      cases hget
      split
      · exact Restores.fault _ t
      · exact restores_pure _ t
  | u =>
      apply (restoresAt_onEditor _ s).bind
      intro value t _ _
      apply restoresAt_getCore
      split
      · exact restores_pure _ t
      · exact Restores.throw _ t
  | q =>
      apply (restoresAt_onEditor _ s).bind
      intro contents t _ _
      apply restoresAt_getCore
      split
      · exact Restores.fault _ t
      · exact restores_pure _ t
  | quote => exact hquoted _
  | n => exact hquoted _

theorem restoresAt_ctleQRegInput {next : SBState}
    {expand : Reg -> Table -> Exec (SBScope W Reg) Bytes}
    {m : Exec (SBScope W Reg) (Option (Option Reg × Table))}
    (hexpand : forall reg table s,
      RestoresAt (RestoredSB codepages) (expand reg table) s)
    {s : SBScope W Reg} (hm : RestoresAt (RestoredSB codepages) m s)
    (result : Bool) :
    RestoresAt (RestoredSB codepages) (ctleQRegInput next expand m result)
      s := by
  unfold ctleQRegInput
  apply hm.bind
  intro status t _ _
  rcases status with _ | ⟨qreg, table⟩
  · exact restores_pure _ t
  · dsimp only
    split
    · cases qreg with
      | none => exact Restores.fault _ t
      | some reg =>
          apply (hexpand reg table t).bind
          intro text u _ _
          exact restores_pure _ u
    · exact restores_pure _ t

/-!
## Resets
-/

/-- The result tables of the machines within a machine are global. -/
def StringBuilding.AllGlobal : StringBuilding Reg -> Prop
  | .plain _ => True
  | .withSpec _ spec inner =>
      spec.resultTable = Table.globals ∧ inner.AllGlobal

/-- The condition under which the machine can be reset. -/
def QRegSpec.AllGlobal (q : QRegSpec Reg) : Prop :=
  q.core.resultTable = Table.globals ∧ q.stringbuilding.AllGlobal

/-- The specification within a machine. -/
theorem restoresAt_zoomSpec {α : Type} {m : Exec (SpecScope W Reg) α}
    {core : SBCore} {spec : SpecCore Reg} {inner : StringBuilding Reg}
    {e : Editor W}
    (hm : RestoresAt (RestoredSpec codepages) m
      ({ core := spec, stringbuilding := inner }, e)) :
    RestoresAt (RestoredSB codepages) (zoom specLens.left m)
      (.withSpec core spec inner, e) := by
  apply RestoresAt.zoom hm
  · exact fun _ _ => rfl
  · exact fun _ _ _ => rfl
  · rintro ⟨sb, e'⟩ t hu
    cases sb with
    | plain c => exact hu.elim
    | withSpec c spec' inner' =>
        rcases hu with ⟨_, hspec, hinner⟩
        exact ⟨rfl, hspec, hinner⟩
  · rintro ⟨sb, e'⟩ t v hu hv
    cases sb with
    | plain c => exact hu.elim
    | withSpec c spec' inner' => exact ⟨hu.1, hv.core, hv.stringbuilding⟩

/-- The machine within a specification. -/
theorem restoresAt_zoomInner {α : Type} {m : Exec (SBScope W Reg) α}
    {s : SpecScope W Reg}
    (hm : RestoresAt (RestoredSB codepages) m (s.1.stringbuilding, s.2)) :
    RestoresAt (RestoredSpec codepages) (zoom innerLens.left m) s := by
  apply RestoresAt.zoom hm
  · exact fun _ _ => rfl
  · exact fun _ _ _ => rfl
  · exact fun _ _ hu => ⟨rfl, hu.stringbuilding⟩
  · exact fun _ _ _ hu hv => ⟨hu.core, hv⟩

/-- The inner machine does not touch the fields of the specification. -/
theorem core_zoomInner {α : Type} {m : Exec (SBScope W Reg) α}
    {s t : SpecScope W Reg} {a : α}
    {tokens : List (SpecScope W Reg -> SpecScope W Reg)}
    (h : zoom innerLens.left m s = .ok a t tokens) : t.1.core = s.1.core := by
  unfold zoom at h
  cases hrun : m (innerLens.left.get s) <;> rw [hrun] at h <;> cases h
  rfl

theorem restoresAt_saveSpec (hundo : env.mustUndo = true)
    {f g : SpecCore Reg -> SpecCore Reg} {s : SpecScope W Reg}
    (h : forall c : SpecCore Reg,
      c.Same (g s.1.core) -> (f c).Same s.1.core) :
    RestoresAt (RestoredSpec codepages) (do
      undoSpec env f
      modifySpec g) s := by
  unfold undoSpec modifySpec
  rw [undo_eq hundo]
  apply Restores.change
  intro u hu
  exact ⟨h _ hu.core, hu.stringbuilding⟩

theorem restoresAt_modifySpec {g : SpecCore Reg -> SpecCore Reg}
    {s : SpecScope W Reg}
    (h : forall c : SpecCore Reg, c.Same (g s.1.core) -> c.Same s.1.core) :
    RestoresAt (RestoredSpec codepages) (modifySpec g) s := by
  apply RestoresAt.modify
  intro u hu
  exact ⟨h _ hu.core, hu.stringbuilding⟩

theorem restoresAt_savedSpec {α : Type} (hundo : env.mustUndo = true)
    {f g : SpecCore Reg -> SpecCore Reg} {k : Exec (SpecScope W Reg) α}
    {s : SpecScope W Reg}
    (h : forall c : SpecCore Reg,
      c.Same (g s.1.core) -> (f c).Same s.1.core)
    (hk : RestoresAt (RestoredSpec codepages) k
      ({ s.1 with core := g s.1.core }, s.2)) :
    RestoresAt (RestoredSpec codepages) (do
      undoSpec env f
      modifySpec g
      k) s := by
  have hbind : (do undoSpec env f; modifySpec g; k) =
      ((do undoSpec env f; modifySpec g) >>= fun _ => k) := by
    rw [bind_assoc]
  rw [hbind]
  apply (restoresAt_saveSpec hundo h).bind
  intro _ t _ hrun
  unfold undoSpec modifySpec at hrun
  rw [undo_eq hundo] at hrun
  cases hrun
  exact hk

theorem restoresAt_changedSpec {α : Type} {g : SpecCore Reg -> SpecCore Reg}
    {k : Exec (SpecScope W Reg) α} {s : SpecScope W Reg}
    (h : forall c : SpecCore Reg, c.Same (g s.1.core) -> c.Same s.1.core)
    (hk : RestoresAt (RestoredSpec codepages) k
      ({ s.1 with core := g s.1.core }, s.2)) :
    RestoresAt (RestoredSpec codepages) (do
      modifySpec g
      k) s := by
  apply (restoresAt_modifySpec h).bind
  intro _ t _ hrun
  cases hrun
  exact hk

/-- The reset of a machine whose table is global. -/
theorem restoresAt_resetQRegSpecWith (hundo : env.mustUndo = true)
    {resetInner : Exec (SBScope W Reg) Unit} {s : SpecScope W Reg}
    (htable : s.1.core.resultTable = Table.globals)
    (hinner : RestoresAt (RestoredSB codepages) resetInner
      (s.1.stringbuilding, s.2)) :
    RestoresAt (RestoredSpec codepages) (resetQRegSpecWith env resetInner)
      s := by
  have hfields (t : SpecScope W Reg)
      (hcore : t.1.core = { s.1.core with current := SpecState.start }) :
      RestoresAt (RestoredSpec codepages) (do
        undoSpec env (fun c => { c with name := s.1.core.name })
        undoSpec env (fun c => { c with nesting := s.1.core.nesting })
        undoSpec env (fun c =>
          { c with
            type := s.1.core.type
            parseOnly := s.1.core.parseOnly })
        modifySpec (fun c =>
          { c with name := [], nesting := 0, resultTable := Table.globals }))
        t := by
    unfold undoSpec modifySpec
    rw [undo_eq hundo, undo_eq hundo, undo_eq hundo]
    apply RestoresAt.of_ok rfl
    intro u hu
    constructor
    · show SpecCore.Same _ t.1.core
      rw [hcore]
      exact
        { current := hu.core.current.trans
            (show t.1.core.current = SpecState.start by rw [hcore])
          type := rfl
          nesting := rfl
          name := rfl
          resultTable := hu.core.resultTable.trans htable.symm }
    · exact hu.stringbuilding
  have hrest (t : SpecScope W Reg)
      (hcore : t.1.core = { s.1.core with current := SpecState.start })
      (hsb : t.1.stringbuilding = s.1.stringbuilding) (he : t.2 = s.2) :
      RestoresAt (RestoredSpec codepages) (do
        zoom innerLens.left resetInner
        undoSpec env (fun c => { c with name := s.1.core.name })
        undoSpec env (fun c => { c with nesting := s.1.core.nesting })
        undoSpec env (fun c =>
          { c with
            type := s.1.core.type
            parseOnly := s.1.core.parseOnly })
        modifySpec (fun c =>
          { c with name := [], nesting := 0, resultTable := Table.globals }))
        t := by
    apply (restoresAt_zoomInner (by rw [hsb, he]; exact hinner)).bind
    intro _ u _ hrun
    exact hfields u ((core_zoomInner hrun).trans hcore)
  have hnext := hrest
    ({ s.1 with core := { s.1.core with current := SpecState.start } }, s.2)
    rfl rfl rfl
  unfold resetQRegSpecWith
  apply restoresAt_getSpec
  split
  · apply restoresAt_savedSpec hundo _ hnext
    intro c hc
    exact { hc with current := rfl }
  · next hstart =>
      apply restoresAt_changedSpec _ hnext
      intro c hc
      exact { hc with current := hc.current.trans (of_not_not hstart).symm }

theorem core_zoomSpec {α : Type} {m : Exec (SpecScope W Reg) α}
    {s t : SBScope W Reg} {a : α}
    {tokens : List (SBScope W Reg -> SBScope W Reg)}
    (h : zoom specLens.left m s = .ok a t tokens) : t.1.core = s.1.core := by
  rcases zoom_ok h with ⟨q, _, _, rfl⟩
  rfl

/-- The reset of a string building machine. -/
theorem restoresAt_resetStringBuildingWith (hundo : env.mustUndo = true)
    {resetSpec : Exec (SBScope W Reg) Unit} {s : SBScope W Reg}
    (hspec : forall f, RestoresAt (RestoredSB codepages) resetSpec
      (s.1.mapCore f, s.2))
    (hcore : forall a t u tokens, resetSpec t = .ok a u tokens ->
      u.1.core = t.1.core) :
    RestoresAt (RestoredSB codepages) (resetStringBuildingWith env resetSpec)
      s := by
  have hrest : RestoresAt (RestoredSB codepages) (do
      resetSpec
      undoCore env (fun c => { c with mode := s.1.core.mode })
      modifyCore (fun c => { c with mode := SBMode.normal }))
      (s.1.mapCore (fun c => { c with current := SBState.start }), s.2) := by
    apply (hspec _).bind
    intro _ t _ hrun
    apply restoresAt_saveCore hundo
    rw [hcore _ _ _ _ hrun, StringBuilding.core_mapCore]
  unfold resetStringBuildingWith
  apply restoresAt_getCore
  split
  · exact restoresAt_savedCore hundo rfl hrest
  · next hstart =>
      have hsame : s.1.mapCore (fun c => { c with current := SBState.start }) =
          s.1 := by
        apply mapCore_same
        rw [<- of_not_not hstart]
      have hmodify : RestoresAt (RestoredSB codepages)
          (modifyCore (fun c => { c with current := SBState.start })) s := by
        apply RestoresAt.modify
        intro u hu
        show u.1.Same codepages s.1
        rw [<- hsame]
        exact hu
      apply hmodify.bind
      intro _ t _ hrun
      cases hrun
      exact hrest

theorem restoresAt_resetStringBuilding (hundo : env.mustUndo = true)
    {sb : StringBuilding Reg} (hglobal : sb.AllGlobal) (e : Editor W) :
    RestoresAt (RestoredSB codepages) (resetStringBuilding env sb) (sb, e) := by
  have hgeneral (f : SBCore -> SBCore) : RestoresAt (RestoredSB codepages)
      (resetStringBuilding env sb) (sb.mapCore f, e) := by
    induction sb generalizing f e with
    | plain core =>
        apply restoresAt_resetStringBuildingWith hundo
        · exact fun _ => restores_pure () _
        · intro _ t u _ hrun
          cases hrun
          rfl
    | withSpec core spec inner ih =>
        apply restoresAt_resetStringBuildingWith hundo
        · intro g
          apply restoresAt_zoomSpec
          apply restoresAt_resetQRegSpecWith hundo hglobal.1
          have hinner := ih hglobal.2 e id
          rwa [show inner.mapCore id = inner from by cases inner <;> rfl]
            at hinner
        · exact fun _ _ _ _ hrun => core_zoomSpec hrun
  have hid := hgeneral id
  rwa [show sb.mapCore id = sb from by cases sb <;> rfl] at hid

/-- The machine for a register name is reset or allocated. -/
theorem restoresAt_prepareSpec (hundo : env.mustUndo = true)
    (hcodepages : forall e, codepages (host.defaultCodepage e))
    {s : SBScope W Reg} (hglobal : s.1.AllGlobal) :
    RestoresAt (RestoredSB codepages) (prepareSpec host env) s := by
  rcases s with ⟨sb, e⟩
  unfold prepareSpec
  apply (Restores.get (sb, e)).bind
  intro _ _ _ hget
  cases hget
  cases sb with
  | plain core =>
      apply RestoresAt.modify
      rintro ⟨sb, e'⟩ hu
      cases sb with
      | plain c => exact hu.elim
      | withSpec c spec inner =>
          rcases hu with ⟨hc, hspec, hinner⟩
          exact ⟨hc, _, hcodepages e, hspec, hinner⟩
  | withSpec core spec inner =>
      apply restoresAt_zoomSpec
      exact restoresAt_resetQRegSpecWith hundo hglobal.1
        (restoresAt_resetStringBuilding hundo hglobal.2 e)

/-!
## Characters
-/

/-- A character may be read: a construct is only started if the result tables of
the machines that it resets are global. -/
def StringBuilding.Ready (chr : Gunichar) : StringBuilding Reg -> Prop
  | .plain _ => True
  | .withSpec core spec inner =>
      (core.current = SBState.ctle -> ctleState chr ≠ none ->
        (StringBuilding.withSpec core spec inner).AllGlobal) ∧
      (core.current.readsSpec = true -> spec.current = SpecState.string ->
        inner.Ready chr)

def QRegSpec.Ready (chr : Gunichar) (q : QRegSpec Reg) : Prop :=
  q.core.current = SpecState.string -> q.stringbuilding.Ready chr

theorem restoresAt_ctleInput (hundo : env.mustUndo = true)
    (hcodepages : forall e, codepages (host.defaultCodepage e))
    {s : SBScope W Reg} {chr : Gunichar}
    (hglobal : ctleState chr ≠ none -> s.1.AllGlobal) (result : Bool) :
    RestoresAt (RestoredSB codepages) (ctleInput host env result chr) s := by
  unfold ctleInput
  apply restoresAt_getCore
  cases hstate : ctleState chr with
  | none => exact restores_pure _ s
  | some next =>
      apply (restoresAt_prepareSpec hundo hcodepages
        (hglobal (by rw [hstate]; nofun))).bind
      intro _ t _ _
      exact restores_pure _ t

theorem restoresAt_sbStateInput (hundo : env.mustUndo = true)
    (hcodepages : forall e, codepages (host.defaultCodepage e))
    {m : Exec (SBScope W Reg) (Option (Option Reg × Table))}
    {s : SBScope W Reg} {chr : Gunichar}
    (hm : s.1.core.current.readsSpec = true ->
      RestoresAt (RestoredSB codepages) m s)
    (hglobal : s.1.core.current = SBState.ctle -> ctleState chr ≠ none ->
      s.1.AllGlobal) (result : Bool) :
    RestoresAt (RestoredSB codepages) (sbStateInput host env m result chr)
      s := by
  have hreg (kind : Expansion) (hkind : s.1.core.current.readsSpec = true) :
      RestoresAt (RestoredSB codepages)
        (ctleQRegInput kind.state (kind.appended host env) m result) s :=
    restoresAt_ctleQRegInput (fun reg table t =>
      restoresAt_expand kind reg table t) (hm hkind) result
  unfold sbStateInput
  apply restoresAt_getCore
  cases hcurrent : s.1.core.current with
  | start => exact restoresAt_sbStartInput hundo result chr s
  | ctl => exact restoresAt_ctlInput hundo result chr s
  | escaped => exact restoresAt_escapedInput result chr s
  | lower =>
      exact restoresAt_caseInput
        (restoresAt_caseCtlInput hundo 'V' SBMode.lower) result chr s
  | lowerCtl =>
      exact restoresAt_caseCtlInput hundo 'V' SBMode.lower result chr s
  | upper =>
      exact restoresAt_caseInput
        (restoresAt_caseCtlInput hundo 'W' SBMode.upper) result chr s
  | upperCtl =>
      exact restoresAt_caseCtlInput hundo 'W' SBMode.upper result chr s
  | ctle =>
      exact restoresAt_ctleInput hundo hcodepages (hglobal hcurrent) result
  | ctleNum => exact hreg Expansion.num (by rw [hcurrent]; rfl)
  | ctleU => exact hreg Expansion.u (by rw [hcurrent]; rfl)
  | ctleCode => exact restoresAt_ctleCodeInput hundo result chr s
  | ctleQ => exact hreg Expansion.q (by rw [hcurrent]; rfl)
  | ctleQuote => exact hreg Expansion.quote (by rw [hcurrent]; rfl)
  | ctleN => exact hreg Expansion.n (by rw [hcurrent]; rfl)

/-!
## Names
-/

/-- The characters of a name in brackets are for the inner machine. -/
def stringFeed (env : Env) (spec : SpecCore Reg)
    (innerInput : Bool -> Exec (SBScope W Reg) Bytes) :
    Exec (SpecScope W Reg) SpecState := do
  if spec.parseOnly then
    pure ()
  else
    undoSpec env (fun c => { c with name := c.name.take spec.name.length })
  let text <- zoom innerLens.left (innerInput (!spec.parseOnly))
  modifySpec (fun c => { c with name := c.name ++ text })
  pure SpecState.string

/-- A specification which is restored up to the end of its name. -/
structure RestoredName (codepages : Nat -> Prop) (len : Nat)
    (s t : SpecScope W Reg) : Prop where
  current : s.1.core.current = t.1.core.current
  type : s.1.core.type = t.1.core.type
  nesting : s.1.core.nesting = t.1.core.nesting
  name : s.1.core.name.take len = t.1.core.name.take len
  resultTable : s.1.core.resultTable = t.1.core.resultTable
  stringbuilding : s.1.stringbuilding.Same codepages t.1.stringbuilding

theorem RestoredName.of_restored {len : Nat} {s t : SpecScope W Reg}
    (h : RestoredSpec codepages s t) : RestoredName codepages len s t :=
  { current := h.core.current
    type := h.core.type
    nesting := h.core.nesting
    name := by rw [h.core.name]
    resultTable := h.core.resultTable
    stringbuilding := h.stringbuilding }

theorem restoresAt_stringFeed (hundo : env.mustUndo = true)
    {spec : SpecCore Reg}
    {innerInput : Bool -> Exec (SBScope W Reg) Bytes} {s : SpecScope W Reg}
    (hname : s.1.core.name = spec.name)
    (hinner : forall result, RestoresAt (RestoredSB codepages)
      (innerInput result) (s.1.stringbuilding, s.2))
    (hsilent : wp (innerInput false) (fun text _ => text = [])
      (fun _ _ => True) (fun _ => True) (s.1.stringbuilding, s.2)) :
    RestoresAt (RestoredSpec codepages) (stringFeed env spec innerInput) s := by
  unfold stringFeed
  split
  · next hparse =>
      rw [hparse]
      apply (restoresAt_zoomInner (hinner _)).bind
      intro text t _ hrun
      rcases zoom_ok hrun with ⟨v, tokens, hinnerRun, rfl⟩
      have htext := wp_ok hsilent hinnerRun
      apply restoresAt_changedSpec
      · intro c hc
        rw [show text = [] from htext] at hc
        exact { hc with name := hc.name.trans (List.append_nil _) }
      · exact Restores.pure _ _
  · unfold undoSpec
    rw [undo_eq hundo]
    apply @RestoresAt.guarded _ _ _ _ _
      (RestoredName codepages spec.name.length)
    · exact fun _ _ hu => .of_restored hu
    · have hzoom : RestoresAt (RestoredName codepages spec.name.length)
          (zoom innerLens.left (innerInput (!spec.parseOnly))) s := by
        apply RestoresAt.zoom (hinner _)
        · exact fun _ _ => rfl
        · exact fun _ _ _ => rfl
        · exact fun _ _ hu => ⟨rfl, hu.stringbuilding⟩
        · intro u t v hu hv
          exact { hu with stringbuilding := hv }
      apply hzoom.bind
      intro text t _ hrun
      have hcore := core_zoomInner hrun
      apply RestoresAt.bind
      · apply RestoresAt.modify
        intro u hu
        have htake : (t.1.core.name ++ text).take spec.name.length =
            t.1.core.name.take spec.name.length := by
          rw [hcore, hname, List.take_left, List.take_length]
        exact { hu with name := hu.name.trans htake }
      · intro _ v _ _
        exact Restores.pure _ v
    · intro u hu
      constructor
      · exact
          { current := hu.current
            type := hu.type
            nesting := hu.nesting
            name := by
              have hcut := hu.name
              rw [hname, List.take_length] at hcut
              exact hcut.trans hname.symm
            resultTable := hu.resultTable }
      · exact hu.stringbuilding

theorem restoresAt_specDone (s : SpecScope W Reg) :
    RestoresAt (RestoredSpec codepages) (specDone host) s := by
  have hresult (reg : Option Reg) (t : SpecScope W Reg) (next : SpecState) :
      RestoresAt (RestoredSpec codepages) (do
        modifySpec (fun c => { c with result := reg })
        pure next) t :=
    restoresAt_changedSpec (fun _ hc => { hc with }) (Restores.pure next _)
  unfold specDone
  apply restoresAt_getSpec
  split
  · exact Restores.pure _ s
  · apply (Restores.get s).bind
    intro _ t _ hget
    cases hget
    apply restoresAt_changedSpec (fun _ hc => { hc with })
    split
    · exact Restores.throw _ _
    · apply (restoresAt_onEditor _ _).bind
      intro reg u _ _
      exact hresult (some reg) u SpecState.start
    · exact Restores.pure _ _

theorem restoresAt_specAppend (hundo : env.mustUndo = true) (chr : Gunichar)
    (s : SpecScope W Reg) :
    RestoresAt (RestoredSpec codepages) (specAppend env chr) s := by
  unfold specAppend
  apply restoresAt_getSpec
  split
  · exact Restores.pure _ s
  · apply restoresAt_saveSpec hundo
    intro c hc
    have hname : c.name.take s.1.core.name.length = s.1.core.name := by
      rw [hc.name, List.take_left]
    exact { hc with name := hname }

theorem restoresAt_appendDone (hundo : env.mustUndo = true) (chr : Gunichar)
    (s : SpecScope W Reg) :
    RestoresAt (RestoredSpec codepages) (do
      specAppend env chr
      specDone host) s := by
  apply (restoresAt_specAppend hundo chr s).bind
  intro _ t _ _
  exact restoresAt_specDone t

theorem restoresAt_specStartGlobalInput (hundo : env.mustUndo = true)
    (chr : Gunichar) (s : SpecScope W Reg) :
    RestoresAt (RestoredSpec codepages) (specStartGlobalInput host env chr)
      s := by
  unfold specStartGlobalInput
  apply restoresAt_getSpec
  split
  · exact Restores.pure _ s
  · exact Restores.pure _ s
  · apply restoresAt_savedSpec hundo _ (Restores.pure _ _)
    intro c hc
    exact { hc with nesting := rfl }
  · exact restoresAt_appendDone hundo _ s

theorem restoresAt_specStartInput (hundo : env.mustUndo = true)
    (chr : Gunichar) (s : SpecScope W Reg) :
    RestoresAt (RestoredSpec codepages) (specStartInput host env chr) s := by
  unfold specStartInput
  apply restoresAt_getSpec
  split
  · apply restoresAt_savedSpec hundo _ (Restores.pure _ _)
    intro c hc
    exact { hc with resultTable := rfl }
  · exact restoresAt_specStartGlobalInput hundo chr s

theorem restoresAt_specCaretInput (hundo : env.mustUndo = true)
    (chr : Gunichar) (s : SpecScope W Reg) :
    RestoresAt (RestoredSpec codepages) (specCaretInput host env chr) s := by
  unfold specCaretInput
  split
  · exact Restores.throw _ s
  · exact restoresAt_appendDone hundo _ s

theorem restoresAt_specStringInput (hundo : env.mustUndo = true)
    {innerInput : Bool -> Exec (SBScope W Reg) Bytes} {s : SpecScope W Reg}
    (hinner : forall result, RestoresAt (RestoredSB codepages)
      (innerInput result) (s.1.stringbuilding, s.2))
    (hsilent : wp (innerInput false) (fun text _ => text = [])
      (fun _ _ => True) (fun _ => True) (s.1.stringbuilding, s.2))
    (chr : Gunichar) :
    RestoresAt (RestoredSpec codepages)
      (specStringInput host env innerInput chr) s := by
  have hfeed (nesting : Int) : RestoresAt (RestoredSpec codepages)
      (stringFeed env s.1.core innerInput)
      ({ s.1 with core := { s.1.core with nesting := nesting } }, s.2) :=
    restoresAt_stringFeed hundo rfl hinner hsilent
  have hnesting (c : SpecCore Reg) (nesting : Int)
      (hc : c.Same { s.1.core with nesting := nesting }) :
      SpecCore.Same { c with nesting := s.1.core.nesting } s.1.core :=
    { hc with nesting := rfl }
  unfold specStringInput
  apply (Restores.get s).bind
  intro _ t _ hget
  cases hget
  dsimp only
  split
  · exact restoresAt_savedSpec hundo (fun c hc => hnesting c _ hc) (hfeed _)
  · split
    · apply restoresAt_savedSpec hundo (fun c hc => hnesting c _ hc)
      split
      · exact restoresAt_specDone _
      · exact hfeed _
    · exact hfeed s.1.core.nesting

theorem restoresAt_specStateInput (hundo : env.mustUndo = true)
    {innerInput : Bool -> Exec (SBScope W Reg) Bytes} {s : SpecScope W Reg}
    (hinner : s.1.core.current = SpecState.string -> forall result,
      RestoresAt (RestoredSB codepages) (innerInput result)
        (s.1.stringbuilding, s.2))
    (hsilent : wp (innerInput false) (fun text _ => text = [])
      (fun _ _ => True) (fun _ => True) (s.1.stringbuilding, s.2))
    (chr : Gunichar) :
    RestoresAt (RestoredSpec codepages) (specStateInput host env innerInput chr)
      s := by
  unfold specStateInput
  apply restoresAt_getSpec
  cases hcurrent : s.1.core.current with
  | start => exact restoresAt_specStartInput hundo chr s
  | startGlobal => exact restoresAt_specStartGlobalInput hundo chr s
  | caret => exact restoresAt_specCaretInput hundo chr s
  | firstchar =>
      apply (restoresAt_specAppend hundo _ s).bind
      intro _ t _ _
      exact Restores.pure _ t
  | secondchar => exact restoresAt_appendDone hundo _ s
  | string =>
      exact restoresAt_specStringInput hundo (hinner hcurrent) hsilent chr

/-- A character of a specification. -/
theorem restoresAt_specInput (hundo : env.mustUndo = true)
    {innerInput : Bool -> Exec (SBScope W Reg) Bytes} {s : SpecScope W Reg}
    (hinner : s.1.core.current = SpecState.string -> forall result,
      RestoresAt (RestoredSB codepages) (innerInput result)
        (s.1.stringbuilding, s.2))
    (hsilent : wp (innerInput false) (fun text _ => text = [])
      (fun _ _ => True) (fun _ => True) (s.1.stringbuilding, s.2))
    (wanted : Bool) (chr : Gunichar) :
    RestoresAt (RestoredSpec codepages)
      (specInput host env wanted innerInput chr) s := by
  have hlast (t : SpecScope W Reg) : RestoresAt (RestoredSpec codepages) (do
      let spec <- getSpec
      if spec.current = SpecState.start then
        pure (some (if wanted then spec.result else none, spec.resultTable))
      else
        pure none) t := by
    apply restoresAt_getSpec
    split
    · exact Restores.pure _ t
    · exact Restores.pure _ t
  unfold specInput
  apply restoresAt_changedSpec (fun _ hc => { hc with })
  have hstate : RestoresAt (RestoredSpec codepages)
      (specStateInput host env innerInput chr)
      ({ s.1 with core := { s.1.core with parseOnly := !wanted } }, s.2) := by
    apply restoresAt_specStateInput hundo
    · exact hinner
    · exact hsilent
  apply hstate.bind
  intro next t _ _
  apply restoresAt_getSpec
  by_cases hnext : next ≠ t.1.core.current
  · rw [if_pos hnext]
    apply restoresAt_savedSpec hundo _ (hlast _)
    intro c hc
    exact { hc with current := rfl }
  · rw [if_neg hnext]
    exact hlast t

/-!
## Machines without a result
-/

/-- A computation which builds no text. -/
def Textless {α : Type} (m : Exec (SBScope W Reg) (α × Bytes)) : Prop :=
  forall s, wp m (fun p _ => p.2 = []) (fun _ _ => True) (fun _ => True) s

theorem textless_getCore {α : Type}
    {f : SBCore -> Exec (SBScope W Reg) (α × Bytes)}
    (h : forall core, Textless (f core)) : Textless (getCore >>= f) := by
  intro s
  rw [wp_bind_of_ok (result_getCore s)]
  exact h _ s

theorem textless_pure {α : Type} (next : α) :
    Textless (pure (next, []) : Exec (SBScope W Reg) (α × Bytes)) :=
  fun _ => rfl

theorem textless_then {α β : Type} {m : Exec (SBScope W Reg) β}
    {f : β -> Exec (SBScope W Reg) (α × Bytes)}
    (h : forall a, Textless (f a)) : Textless (m >>= f) := by
  intro s
  rw [wp_bind]
  exact wp_of_forall (fun a t => h a t) (fun _ _ => trivial)
    (fun _ => trivial)

theorem textless_escapedInput (chr : Gunichar) :
    Textless (escapedInput host false chr : Exec (SBScope W Reg) _) := by
  unfold escapedInput
  apply textless_getCore
  intro core
  exact textless_pure _

theorem textless_ctlInput (chr : Gunichar) :
    Textless (ctlInput env false chr : Exec (SBScope W Reg) _) := by
  unfold ctlInput
  apply textless_getCore
  intro core
  split
  case h_2 =>
    exact textless_then (fun _ => textless_then (fun _ => textless_pure _))
  case h_8 => split <;> exact textless_pure _
  all_goals exact textless_pure _

theorem textless_sbStartInput (chr : Gunichar) :
    Textless (sbStartInput host env false chr : Exec (SBScope W Reg) _) := by
  unfold sbStartInput
  apply textless_getCore
  intro core
  split
  · exact textless_escapedInput chr
  · split
    · exact textless_pure _
    · split
      · exact textless_escapedInput chr
      · split
        · exact textless_ctlInput _
        · exact textless_escapedInput chr

theorem textless_caseCtlInput (key : Char) (mode : SBMode) (chr : Gunichar) :
    Textless (caseCtlInput env key mode false chr :
      Exec (SBScope W Reg) _) := by
  unfold caseCtlInput
  apply textless_getCore
  intro core
  exact textless_pure _

theorem textless_caseInput {ctlState : SBState}
    {ctl : Bool -> Gunichar -> Exec (SBScope W Reg) (SBState × Bytes)}
    {fold : Gunichar -> Gunichar} (hctl : forall chr, Textless (ctl false chr))
    (chr : Gunichar) : Textless (caseInput ctlState ctl fold false chr) := by
  unfold caseInput
  apply textless_getCore
  intro core
  split
  · exact textless_pure _
  · split
    · exact hctl _
    · exact textless_pure _

theorem textless_ctleQRegInput {next : SBState}
    {expand : Reg -> Table -> Exec (SBScope W Reg) Bytes}
    {m : Exec (SBScope W Reg) (Option (Option Reg × Table))} :
    Textless (ctleQRegInput next expand m false) := by
  unfold ctleQRegInput
  apply textless_then
  rintro (_ | ⟨qreg, table⟩)
  · exact textless_pure _
  · exact textless_pure _

theorem textless_ctleInput (chr : Gunichar) :
    Textless (ctleInput host env false chr : Exec (SBScope W Reg) _) := by
  unfold ctleInput
  apply textless_getCore
  intro core
  cases ctleState chr with
  | none => exact textless_pure _
  | some next => exact textless_then (fun _ => textless_pure _)

theorem textless_ctleCodeInput (chr : Gunichar) :
    Textless (ctleCodeInput host env false chr : Exec (SBScope W Reg) _) := by
  unfold ctleCodeInput
  apply textless_getCore
  intro core
  split
  · exact textless_pure _
  · exact textless_pure _

theorem textless_sbStateInput
    (m : Exec (SBScope W Reg) (Option (Option Reg × Table)))
    (chr : Gunichar) : Textless (sbStateInput host env m false chr) := by
  unfold sbStateInput
  apply textless_getCore
  intro core
  cases core.current with
  | start => exact textless_sbStartInput chr
  | ctl => exact textless_ctlInput chr
  | escaped => exact textless_escapedInput chr
  | lower =>
      exact textless_caseInput (textless_caseCtlInput 'V' SBMode.lower) chr
  | lowerCtl => exact textless_caseCtlInput 'V' SBMode.lower chr
  | upper =>
      exact textless_caseInput (textless_caseCtlInput 'W' SBMode.upper) chr
  | upperCtl => exact textless_caseCtlInput 'W' SBMode.upper chr
  | ctle => exact textless_ctleInput chr
  | ctleNum => exact textless_ctleQRegInput
  | ctleU => exact textless_ctleQRegInput
  | ctleCode => exact textless_ctleCodeInput chr
  | ctleQ => exact textless_ctleQRegInput
  | ctleQuote => exact textless_ctleQRegInput
  | ctleN => exact textless_ctleQRegInput

/-- Without a result there is no text. -/
theorem wp_sbInputOf_textless (chr : Gunichar) (sb : StringBuilding Reg)
    (s : SBScope W Reg) :
    wp (sbInputOf host env chr sb false) (fun text _ => text = [])
      (fun _ _ => True) (fun _ => True) s := by
  have hwith (m : Exec (SBScope W Reg) (Option (Option Reg × Table))) :
      wp (sbInputWith host env m false chr) (fun text _ => text = [])
        (fun _ _ => True) (fun _ => True) s := by
    rw [sbInputWith_eq, wp_bind]
    apply wp_call (textless_sbStateInput m chr s)
    rintro p t ht
    apply wp_of_result
    intro text u hrun
    rw [result_enterSB] at hrun
    injection hrun with hrun
    injection hrun with htext
    exact htext.symm.trans ht
  cases sb with
  | plain core => exact hwith _
  | withSpec core spec inner => exact hwith _

/-!
## Whole machines
-/

theorem restoresAt_sbInputWith (hundo : env.mustUndo = true)
    (hcodepages : forall e, codepages (host.defaultCodepage e))
    {m : Exec (SBScope W Reg) (Option (Option Reg × Table))}
    {s : SBScope W Reg} {chr : Gunichar}
    (hm : s.1.core.current.readsSpec = true ->
      RestoresAt (RestoredSB codepages) m s)
    (hglobal : s.1.core.current = SBState.ctle -> ctleState chr ≠ none ->
      s.1.AllGlobal) (result : Bool) :
    RestoresAt (RestoredSB codepages) (sbInputWith host env m result chr)
      s := by
  rw [sbInputWith_eq]
  apply (restoresAt_sbStateInput hundo hcodepages hm hglobal result).bind
  intro p t _ _
  exact restoresAt_enterSB hundo p.1 p.2 t

/-- A character for a machine of any depth. -/
theorem restoresAt_sbInputOf (hundo : env.mustUndo = true)
    (hcodepages : forall e, codepages (host.defaultCodepage e))
    {sb : StringBuilding Reg} {chr : Gunichar} (hready : sb.Ready chr)
    (e : Editor W) (result : Bool) :
    RestoresAt (RestoredSB codepages) (sbInputOf host env chr sb result)
      (sb, e) := by
  induction sb generalizing e result with
  | plain core =>
      apply restoresAt_sbInputWith hundo hcodepages
      · exact fun _ => Restores.fault _ _
      · exact fun _ _ => trivial
  | withSpec core spec inner ih =>
      rcases hready with ⟨hglobal, hinner⟩
      have hspec : core.current.readsSpec = true ->
          RestoresAt (RestoredSB codepages)
            (zoom specLens.left
              (specInput host env result (sbInputOf host env chr inner) chr))
            (.withSpec core spec inner, e) := by
        intro hreads
        apply restoresAt_zoomSpec
        apply restoresAt_specInput hundo
        · exact fun hstring result => ih (hinner hreads hstring) e result
        · exact wp_sbInputOf_textless chr inner _
      exact @restoresAt_sbInputWith _ _ host env codepages hundo hcodepages _
        (.withSpec core spec inner, e) chr hspec hglobal result

/-!
## Runs
-/

end Restoring

/-- What happens to a specification machine. -/
inductive SpecOp where
  | input (wanted : Bool) (chr : Gunichar)
  | reset
deriving DecidableEq, Repr

/-- `teco_machine_qregspec_reset()` for a whole specification machine. -/
def qregSpecReset (env : Env) : Exec (SpecScope W Reg) Unit := fun s =>
  resetQRegSpecWith env (resetStringBuilding env s.1.stringbuilding) s

def runSpecOp (host : Host W Reg) (env : Env) :
    SpecOp -> Exec (SpecScope W Reg) Unit
  | .input wanted chr => do
      let _ <- qregSpecInput host env wanted chr
      pure ()
  | .reset => qregSpecReset env

def runSpecOps (host : Host W Reg) (env : Env) :
    List SpecOp -> Exec (SpecScope W Reg) Unit
  | [] => pure ()
  | op :: ops => do
      runSpecOp host env op
      runSpecOps host env ops

/-- Machines are only reset, by the operation or by a construct that a character
starts, while their result tables are global. -/
def SpecOp.Ready (q : QRegSpec Reg) : SpecOp -> Prop
  | .input _ chr => q.Ready chr
  | .reset => q.AllGlobal

/-- Every operation of a run is ready. -/
def ReadyRun (host : Host W Reg) (env : Env) :
    List SpecOp -> SpecScope W Reg -> Prop
  | [], _ => True
  | op :: ops, s =>
      op.Ready s.1 ∧
        wp (runSpecOp host env op) (fun _ t => ReadyRun host env ops t)
          (fun _ _ => True) (fun _ => True) s

section Runs

variable {host : Host W Reg} {env : Env} {codepages : Nat -> Prop}

theorem restoresAt_runSpecOp (hundo : env.mustUndo = true)
    (hcodepages : forall e, codepages (host.defaultCodepage e))
    {op : SpecOp} {s : SpecScope W Reg} (h : op.Ready s.1) :
    RestoresAt (RestoredSpec codepages) (runSpecOp host env op) s := by
  cases op with
  | input wanted chr =>
      have hinput : RestoresAt (RestoredSpec codepages)
          (specInput host env wanted
            (sbInputOf host env chr s.1.stringbuilding) chr) s := by
        apply restoresAt_specInput hundo
        · exact fun hstring result =>
            restoresAt_sbInputOf hundo hcodepages (h hstring) s.2 result
        · exact wp_sbInputOf_textless chr s.1.stringbuilding _
      apply RestoresAt.bind
      · exact hinput
      · intro _ t _ _
        exact Restores.pure () t
  | reset =>
      exact restoresAt_resetQRegSpecWith hundo h.1
        (restoresAt_resetStringBuilding hundo h.2 s.2)

theorem restoresAt_runSpecOps (hundo : env.mustUndo = true)
    (hcodepages : forall e, codepages (host.defaultCodepage e))
    {ops : List SpecOp} {s : SpecScope W Reg}
    (h : ReadyRun host env ops s) :
    RestoresAt (RestoredSpec codepages) (runSpecOps host env ops) s := by
  induction ops generalizing s with
  | nil => exact Restores.pure () s
  | cons op ops ih =>
      rcases h with ⟨hop, hrest⟩
      apply (restoresAt_runSpecOp hundo hcodepages hop).bind
      intro _ t _ hrun
      have hnext := wp_ok hrest hrun
      exact ih hnext

end Runs

end Parser
end SciTECO
