import Mathlib.Tactic.IntervalCases
import SciTECO.Parser.Inert
import SciTECO.Parser.Jumps
import SciTECO.Parser.ReturnsMain
import SciTECO.Parser.StaticReading

/-!
# Executing a macro follows its static reading

However a macro jumps, every character is read as part of the command to which
it belongs when the macro is read from its beginning to its end.
-/

namespace SciTECO
namespace Parser

open Undoable

variable {W Reg : Type} {host : Host W Reg} {env : Env} {text : Bytes}

/-!
## Positions to jump to
-/

/-- A new command begins at a position which has been read. -/
def BeginsAt (host : Host W Reg) (env : Env) (text : Bytes) (m pc : Nat) :
    Prop :=
  exists k r, k ≤ m ∧
    StaticReading.after host.glib.toUpper env text k = some r ∧ r.pc = pc ∧
    r.shape = Syntax.fresh ∧ r.name = []

theorem BeginsAt.mono {m m' pc : Nat} (h : BeginsAt host env text m pc)
    (hle : m ≤ m') : BeginsAt host env text m' pc := by
  rcases h with ⟨k, r, hk, hr⟩
  exact ⟨k, r, hk.trans hle, hr⟩

namespace Flow

/-- Where the execution may go on by a jump: at the beginning of the macro or
of a loop, behind a label or behind a `:O` command. -/
inductive Targets (f : Flow) : Nat -> Prop where
  | beginning : Targets f 0
  | loop {pc : Nat} (h : pc ∈ f.loopPcs) : Targets f pc
  | label {name : Bytes} {pc : Nat} (h : (name, pc) ∈ f.labels) :
      Targets f pc
  | backup {pc : Nat} (h : f.backup = some pc) : Targets f pc

theorem mem_of_find {labels : List (Bytes × Nat)} {name : Bytes} {pc : Nat}
    (h : gotoTableFind labels name = some pc) : (name, pc) ∈ labels := by
  induction labels with
  | nil => cases h
  | cons entry labels ih =>
      unfold gotoTableFind at h ih
      rw [List.lookup_cons] at h
      cases heq : name == entry.1 with
      | true =>
          rw [heq] at h
          cases h
          rw [beq_iff_eq.mp heq]
          exact List.mem_cons_self
      | false =>
          rw [heq] at h
          exact List.mem_cons_of_mem _ (ih h)

end Flow

/-!
## The invariant
-/

/-- The machine is where the static reading is behind `n` characters, and it
knows the labels among the first `m` ones. -/
structure Follows (host : Host W Reg) (env : Env) (text : Bytes) (n m : Nat)
    (s : State W Reg) : Prop where
  coherent : Coherent s
  here : exists r,
    StaticReading.after host.glib.toUpper env text n = some r ∧
    r.pc = s.machine.macroPc ∧ r.shape = s.toSyntax ∧
    r.name = s.machine.gotoLabel
  le : n ≤ m
  scanned : exists r,
    StaticReading.after host.glib.toUpper env text m = some r ∧
    r.labels = s.machine.gotoTable ∧
    (s.machine.gotoComplete = true -> text.length ≤ r.pc)
  targets : forall pc, s.flow.Targets pc -> BeginsAt host env text m pc
  wanted : s.gotoSkipLabel ≠ [] ->
    gotoTableFind s.machine.gotoTable s.gotoSkipLabel = none
  backup : s.gotoSkipLabel = [] -> s.gotoBackupPc = none

/-- A new machine. -/
theorem follows_init {s : State W Reg} {codepage : Nat}
    (hmachine : s.machine =
      Machine.init s.editor.loopStack.length codepage)
    (hskip : s.gotoSkipLabel = []) (hbackup : s.gotoBackupPc = none) :
    Follows host env text 0 0 s := by
  have hshape : StaticReading.first.shape = s.toSyntax := by
    unfold State.toSyntax
    rw [hmachine]
    rfl
  have hfirst : StaticReading.after host.glib.toUpper env text 0 =
      some StaticReading.first := rfl
  constructor
  · exact coherent_init _ codepage hmachine hskip
  · refine ⟨StaticReading.first, hfirst, ?_, hshape, ?_⟩
    · rw [hmachine]
      rfl
    · rw [hmachine]
      rfl
  · exact Nat.le_refl 0
  · refine ⟨StaticReading.first, hfirst, ?_, ?_⟩
    · rw [hmachine]
      rfl
    · rw [hmachine]
      intro hcomplete
      cases hcomplete
  · intro pc hpc
    cases hpc with
    | beginning =>
        exact ⟨0, StaticReading.first, Nat.le_refl 0, hfirst, rfl, rfl, rfl⟩
    | loop h =>
        unfold Flow.loopPcs State.flow at h
        rw [hmachine] at h
        dsimp only [Machine.init] at h
        rw [Nat.sub_self] at h
        cases h
    | label h =>
        unfold State.flow at h
        rw [hmachine] at h
        cases h
    | backup h =>
        unfold State.flow at h
        rw [hbackup] at h
        cases h
  · exact fun h => absurd hskip h
  · exact fun _ => hbackup

/-!
## A character
-/

namespace StaticReading

variable {r : StaticReading}

theorem not_endsLabel (h : r.shape.current ≠ MainState.label) :
    ¬ r.EndsLabel text := fun hends => h hends.1

theorem nextName_other (h : r.shape.current ≠ MainState.label) :
    r.nextName text = r.name := if_pos h

end StaticReading

/-- What a character does, apart from what it executes: it is read as in the
static reading, and a jump goes to the beginning of a command. -/
structure Moves (text : Bytes) (r : StaticReading) (fresh : Prop) (f g : Flow) :
    Prop where
  labels : g.labels =
    if r.EndsLabel text ∧ gotoTableFind f.labels r.name = none then
      (r.name, f.pc) :: f.labels
    else f.labels
  complete : g.complete = f.complete
  name : g.name = r.nextName text
  pc : g.pc = f.pc ∨ f.Targets g.pc ∧ fresh
  targets : forall pc, g.Targets pc -> f.Targets pc ∨ pc = f.pc ∧ fresh
  wanted : g.wanted ≠ [] -> gotoTableFind g.labels g.wanted = none
  backup : g.wanted = [] -> g.backup = none

section Moves

variable {r : StaticReading} {fresh : Prop} {f g : Flow}

theorem moves_same (hother : r.shape.current ≠ MainState.label)
    (hname : f.name = r.name)
    (hwanted : f.wanted ≠ [] -> gotoTableFind f.labels f.wanted = none)
    (hbackup : f.wanted = [] -> f.backup = none) :
    Moves text r fresh f f where
  labels := (if_neg (fun h => StaticReading.not_endsLabel hother h.1)).symm
  complete := rfl
  name := hname.trans (StaticReading.nextName_other hother).symm
  pc := Or.inl rfl
  targets := fun _ h => Or.inl h
  wanted := hwanted
  backup := hbackup

theorem moves_steers (hother : r.shape.current ≠ MainState.label)
    (hname : f.name = r.name)
    (hwanted : f.wanted ≠ [] -> gotoTableFind f.labels f.wanted = none)
    (hbackup : f.wanted = [] -> f.backup = none) (hfresh : fresh)
    (h : f.Steers g) : Moves text r fresh f g := by
  have hlabels : g.labels = f.labels := (congrArg Flow.labels h.rest :)
  have hcomplete : g.complete = f.complete :=
    (congrArg Flow.complete h.rest :)
  have hkept : g.name = f.name := (congrArg Flow.name h.rest :)
  have hsame : g.wanted = f.wanted := (congrArg Flow.wanted h.rest :)
  have hback : g.backup = f.backup := (congrArg Flow.backup h.rest :)
  have hsteady : Moves text r fresh f f :=
    moves_same hother hname hwanted hbackup
  constructor
  · rw [hlabels]
    exact hsteady.labels
  · exact hcomplete
  · exact hkept.trans hsteady.name
  · rcases h.pc with heq | heq | hmem
    · exact Or.inl heq
    · right
      rw [heq]
      exact ⟨Flow.Targets.beginning, hfresh⟩
    · exact Or.inr ⟨Flow.Targets.loop hmem, hfresh⟩
  · intro pc hpc
    cases hpc with
    | beginning => exact Or.inl Flow.Targets.beginning
    | loop hmem =>
        rcases h.loops pc hmem with heq | hmem
        · exact Or.inr ⟨heq, hfresh⟩
        · exact Or.inl (Flow.Targets.loop hmem)
    | label hmem =>
        rw [hlabels] at hmem
        exact Or.inl (Flow.Targets.label hmem)
    | backup heq =>
        rw [hback] at heq
        exact Or.inl (Flow.Targets.backup heq)
  · rw [hlabels, hsame]
    exact hwanted
  · rw [hback, hsame]
    exact hbackup

theorem moves_endLabel (hlabel : r.shape.current = MainState.label)
    (hname : f.name = r.name) (hchr : r.nextChar text = '!'.toNat)
    (hne : r.name ≠ [])
    (hwanted : f.wanted ≠ [] -> gotoTableFind f.labels f.wanted = none)
    (hbackup : f.wanted = [] -> f.backup = none) (hfresh : fresh) :
    Moves text r fresh f f.endLabel := by
  have hends : r.EndsLabel text := ⟨hlabel, hne, hchr⟩
  have hnext : r.nextName text = [] := by
    unfold StaticReading.nextName
    rw [if_neg (not_not.mpr hlabel), if_neg (fun h => hne h.1), if_pos hchr]
  unfold Flow.endLabel
  rw [hname]
  cases hfind : gotoTableFind f.labels r.name with
  | some pc =>
      constructor
      · exact (if_neg (fun h => by rw [hfind] at h; cases h.2)).symm
      · exact rfl
      · exact hnext.symm
      · exact Or.inl rfl
      · intro pc hpc
        cases hpc with
        | beginning => exact Or.inl Flow.Targets.beginning
        | loop hmem => exact Or.inl (Flow.Targets.loop hmem)
        | label hmem => exact Or.inl (Flow.Targets.label hmem)
        | backup heq => exact Or.inl (Flow.Targets.backup heq)
      · exact hwanted
      · exact hbackup
  | none =>
      have hadded (pc : Nat) (name : Bytes)
          (hmem : (name, pc) ∈ (r.name, f.pc) :: f.labels) :
          f.Targets pc ∨ pc = f.pc ∧ fresh := by
        rcases List.mem_cons.mp hmem with heq | hmem
        · exact Or.inr ⟨congrArg Prod.snd heq, hfresh⟩
        · exact Or.inl (Flow.Targets.label hmem)
      dsimp only
      split
      case isTrue hfound =>
          constructor
          · exact (if_pos ⟨hends, hfind⟩).symm
          · exact rfl
          · exact hnext.symm
          · exact Or.inl rfl
          · intro pc hpc
            cases hpc with
            | beginning => exact Or.inl Flow.Targets.beginning
            | loop hmem => exact Or.inl (Flow.Targets.loop hmem)
            | label hmem => exact hadded pc _ hmem
            | backup heq => cases heq
          · exact fun h => absurd rfl h
          · exact fun _ => rfl
      case isFalse hother =>
          constructor
          · exact (if_pos ⟨hends, hfind⟩).symm
          · exact rfl
          · exact hnext.symm
          · exact Or.inl rfl
          · intro pc hpc
            cases hpc with
            | beginning => exact Or.inl Flow.Targets.beginning
            | loop hmem => exact Or.inl (Flow.Targets.loop hmem)
            | label hmem => exact hadded pc _ hmem
            | backup heq => exact Or.inl (Flow.Targets.backup heq)
          · intro hne
            have hdiffer : (f.wanted == r.name) = false :=
              beq_eq_false_iff_ne.mpr
                (fun heq => hother ⟨hne, heq.symm⟩)
            show List.lookup f.wanted ((r.name, f.pc) :: f.labels) = none
            rw [List.lookup_cons, hdiffer]
            exact hwanted hne
          · exact hbackup

theorem moves_label (hlabel : r.shape.current = MainState.label)
    (hname : f.name = r.name)
    (hwanted : f.wanted ≠ [] -> gotoTableFind f.labels f.wanted = none)
    (hbackup : f.wanted = [] -> f.backup = none)
    (hfresh : r.name ≠ [] -> r.nextChar text = '!'.toNat -> fresh) :
    Moves text r fresh f (f.readLabel (r.nextChar text)) := by
  have hsteady (g : Flow) (hg : g = { f with name := g.name })
      (hends : ¬ r.EndsLabel text) (hnext : g.name = r.nextName text) :
      Moves text r fresh f g := by
    rw [hg]
    constructor
    · exact (if_neg (fun h => hends h.1)).symm
    · exact rfl
    · exact hnext
    · exact Or.inl rfl
    · intro pc hpc
      cases hpc with
      | beginning => exact Or.inl Flow.Targets.beginning
      | loop hmem => exact Or.inl (Flow.Targets.loop hmem)
      | label hmem => exact Or.inl (Flow.Targets.label hmem)
      | backup heq => exact Or.inl (Flow.Targets.backup heq)
    · exact hwanted
    · exact hbackup
  unfold Flow.readLabel
  rw [hname]
  split
  case isTrue hblock =>
      apply hsteady f rfl (fun hends => hends.2.1 hblock.1)
      unfold StaticReading.nextName
      rw [if_neg (not_not.mpr hlabel), if_pos hblock, hname, hblock.1]
  case isFalse hblock =>
      split
      case isTrue heol =>
          apply hsteady f rfl (fun hends => hends.2.1 heol.1)
          unfold StaticReading.nextName
          rw [if_neg (not_not.mpr hlabel), if_neg hblock, if_pos heol.2,
            hname, heol.1]
      case isFalse heol =>
          split
          case isTrue hchr =>
              have hne : r.name ≠ [] := fun h => heol ⟨h, hchr⟩
              exact moves_endLabel hlabel hname hchr hne hwanted hbackup
                (hfresh hne hchr)
          case isFalse hchr =>
              apply hsteady _ rfl (fun hends => hchr hends.2.2)
              unfold StaticReading.nextName
              rw [if_neg (not_not.mpr hlabel), if_neg hblock, if_neg hchr]

theorem moves_goto {label : Bytes} {colon : Bool}
    (hother : r.shape.current ≠ MainState.label) (hname : f.name = r.name)
    (hwanted : f.wanted ≠ [] -> gotoTableFind f.labels f.wanted = none)
    (hbackup : f.wanted = [] -> f.backup = none) (hfresh : fresh)
    (h : f.Goes label colon g) : Moves text r fresh f g := by
  have hsteady : Moves text r fresh f f :=
    moves_same hother hname hwanted hbackup
  cases h with
  | nowhere => exact hsteady
  | missing => exact hsteady
  | known pc hlabel hfind =>
      constructor
      · exact hsteady.labels
      · exact rfl
      · exact hsteady.name
      · exact Or.inr ⟨Flow.Targets.label (Flow.mem_of_find hfind), hfresh⟩
      · intro pc hpc
        cases hpc with
        | beginning => exact Or.inl Flow.Targets.beginning
        | loop hmem => exact Or.inl (Flow.Targets.loop hmem)
        | label hmem => exact Or.inl (Flow.Targets.label hmem)
        | backup heq => exact Or.inl (Flow.Targets.backup heq)
      · exact hwanted
      · exact hbackup
  | wanted hlabel hfind hcomplete =>
      constructor
      · exact hsteady.labels
      · exact rfl
      · exact hsteady.name
      · exact Or.inl rfl
      · intro pc hpc
        cases hpc with
        | beginning => exact Or.inl Flow.Targets.beginning
        | loop hmem => exact Or.inl (Flow.Targets.loop hmem)
        | label hmem => exact Or.inl (Flow.Targets.label hmem)
        | backup heq =>
            dsimp only at heq
            split at heq
            · cases heq
              exact Or.inr ⟨rfl, hfresh⟩
            · cases heq
      · exact fun _ => hfind
      · exact fun hnil => absurd hnil hlabel

end Moves

section Steps

variable [DecidableEq Reg] {n m : Nat} {s t : State W Reg}
  {tokens : List (State W Reg -> State W Reg)}

omit [DecidableEq Reg] in
theorem current_ne_label {r : StaticReading} (hshape : r.shape = s.toSyntax)
    (hother : s.machine.current ≠ MainState.label) :
    r.shape.current ≠ MainState.label := by
  rw [hshape]
  exact fun heq => hother (Syntax.normalize_label heq)

omit [DecidableEq Reg] in
theorem moves_of_course {r : StaticReading} {chr : Gunichar}
    (hshape : r.shape = s.toSyntax) (hname : s.flow.name = r.name)
    (hchr : r.nextChar text = chr) (htidy : r.shape.Tidy)
    (hstep : r.shape.step host.glib.toUpper env chr = some t.toSyntax)
    (hwanted : s.flow.wanted ≠ [] ->
      gotoTableFind s.flow.labels s.flow.wanted = none)
    (hbackup : s.flow.wanted = [] -> s.flow.backup = none)
    (h : Course s chr t) :
    Moves text r (t.toSyntax = Syntax.fresh) s.flow t.flow := by
  have hstart (hcurrent : t.machine.current = MainState.start) :
      t.toSyntax.current = MainState.start := by
    show t.machine.current.normalize = MainState.start
    rw [hcurrent]
    rfl
  cases h with
  | kept hother _ hflow =>
      rw [hflow]
      exact moves_same (current_ne_label hshape hother) hname hwanted hbackup
  | steers hother _ hcurrent hat hsteers =>
      apply moves_steers (current_ne_label hshape hother) hname hwanted
        hbackup _ hsteers
      exact (Syntax.tidy_step htidy hstep).fresh (hstart hcurrent) hat
  | label hcurrent hflow hfound =>
      have hlabel : r.shape.current = MainState.label := by
        rw [hshape]
        show s.machine.current.normalize = MainState.label
        rw [hcurrent]
        rfl
      rw [hflow, <- hchr]
      apply moves_label hlabel hname hwanted hbackup
      intro hne hend
      rw [<- hchr, hend] at hstep
      apply Syntax.fresh_behind_label htidy hlabel _ hstep
      rw [hshape]
      show s.machine.gotoLabel.isEmpty = false
      have hname' : s.machine.gotoLabel = r.name := hname
      rw [hname']
      exact List.isEmpty_eq_false_iff.mpr hne
  | goto hstring hcurrent hmode hgoto =>
      have hargument : r.shape.current =
          MainState.expectstring StringCommand.goto := by
        rw [hshape]
        show s.machine.current.normalize = _
        rw [hstring]
        rfl
      rcases hgoto.goes with ⟨value, e, tokens, _, hgoes⟩
      apply moves_goto _ hname hwanted hbackup _ hgoes
      · rw [hargument]
        simp
      · exact Syntax.fresh_behind_goto htidy hargument hstep
          (hstart hcurrent)

/-- What a character does to a machine that follows the static reading. -/
theorem follows_character (hhost : host.Nests False env)
    (h : Follows host env text n m s)
    (hpc : s.machine.macroPc < text.length)
    (hrun : stepCharacter host env text s = .ok () t tokens) :
    exists r r', StaticReading.after host.glib.toUpper env text n = some r ∧
      r.next host.glib.toUpper env text = some r' ∧
      r.name = s.machine.gotoLabel ∧ r'.shape = t.toSyntax ∧
      r'.pc = (s.fetch text).machine.macroPc ∧
      Course (s.fetch text) (s.nextChar text) t ∧
      Moves text r (t.toSyntax = Syntax.fresh) (s.fetch text).flow
        t.flow := by
  rcases h.here with ⟨r, hr, hrpc, hshape, hname⟩
  have hinput := stepCharacter_ok hrun
  have hfetch := coherent_fetch text h.coherent
  have hsimulated := wp_ok (wp_machineInput (s.nextChar text)
    hfetch.wellFormed
    (fun hmode => processes_of_insertLen (hfetch.skipped hmode))) hinput
  have hturn := wp_machineInput_course hhost (s.fetch text)
    (s.nextChar text)
  have hcourse := wp_ok hturn hinput
  have hchr : r.nextChar text = s.nextChar text := by
    unfold StaticReading.nextChar State.nextChar
    rw [hrpc]
  have hstep : r.shape.step host.glib.toUpper env (s.nextChar text) =
      some t.toSyntax := by
    rw [hshape]
    exact hsimulated.2.2.1
  have hnext : r.next host.glib.toUpper env text =
      some { pc := r.behind text, shape := t.toSyntax,
             name := r.nextName text, labels := r.nextLabels text } := by
    unfold StaticReading.next
    rw [hrpc, if_pos hpc, hchr, hstep]
    rfl
  refine ⟨r, _, hr, hnext, hname, rfl, ?_, hcourse, ?_⟩
  · show r.behind text = _
    unfold StaticReading.behind
    rw [hrpc]
    rfl
  · exact moves_of_course hshape hname.symm hchr
      (StaticReading.tidy_after hr) hstep h.wanted h.backup hcourse

/-- A machine goes on following the static reading. -/
theorem follows_step (hhost : host.Nests False env)
    (h : Follows host env text n m s)
    (hpc : s.machine.macroPc < text.length)
    (hrun : stepCharacter host env text s = .ok () t tokens) :
    exists n' m', m ≤ m' ∧ n < m' ∧ Follows host env text n' m' t := by
  rcases follows_character hhost h hpc hrun with
    ⟨r, r', hr, hnext, hname, hshape, hpc', _, hmoves⟩
  rcases h.scanned with ⟨q, hq, hlabels, hcomplete⟩
  rcases StaticReading.scan h.le hr hnext hq with
    ⟨m', q', hm, hn, hq', hqpc, hlabels'⟩
  have hr' : StaticReading.after host.glib.toUpper env text (n + 1) = some r' :=
    Option.bind_eq_some_iff.mpr ⟨r, hr, hnext⟩
  have hcoherent : Coherent t :=
    wp_ok (coherent_machineInput _ (coherent_fetch text h.coherent))
      (stepCharacter_ok hrun)
  have hname' : r'.name = t.machine.gotoLabel := by
    rw [(StaticReading.next_some hnext).2.2.2.1]
    exact hmoves.name.symm
  have hempty (hfresh : t.toSyntax = Syntax.fresh) :
      t.machine.gotoLabel = [] := by
    have hlabel : t.toSyntax.labelEmpty = true := by
      rw [hfresh]
      rfl
    exact List.isEmpty_iff.mp hlabel
  have hbegins (hfresh : t.toSyntax = Syntax.fresh) :
      BeginsAt host env text m' (s.fetch text).machine.macroPc := by
    refine ⟨n + 1, r', hn, hr', hpc', hshape.trans hfresh, ?_⟩
    exact hname'.trans (hempty hfresh)
  have htargets (pc : Nat) (htarget : (s.fetch text).flow.Targets pc) :
      BeginsAt host env text m' pc := by
    apply (h.targets pc _).mono hm
    cases htarget with
    | beginning => exact Flow.Targets.beginning
    | loop hmem => exact Flow.Targets.loop hmem
    | label hmem => exact Flow.Targets.label hmem
    | backup heq => exact Flow.Targets.backup heq
  have hscanned : exists q, StaticReading.after host.glib.toUpper env text m' =
      some q ∧ q.labels = t.machine.gotoTable ∧
      (t.machine.gotoComplete = true -> text.length ≤ q.pc) := by
    refine ⟨q', hq', ?_, ?_⟩
    · rw [hlabels', hlabels]
      have hbehind : r.behind text = (s.fetch text).machine.macroPc := by
        rw [<- (StaticReading.next_some hnext).2.2.1]
        exact hpc'
      rw [hbehind]
      exact hmoves.labels.symm
    · intro hall
      exact (hcomplete (hmoves.complete.symm.trans hall)).trans hqpc
  have hall (pc : Nat) (htarget : t.flow.Targets pc) :
      BeginsAt host env text m' pc := by
    rcases hmoves.targets pc htarget with hold | ⟨rfl, hfresh⟩
    · exact htargets pc hold
    · exact hbegins hfresh
  rcases hmoves.pc with heq | ⟨htarget, hfresh⟩
  · exact ⟨n + 1, m', hm, hn, hcoherent,
      ⟨r', hr', hpc'.trans heq.symm, hshape, hname'⟩, hn, hscanned, hall,
      hmoves.wanted, hmoves.backup⟩
  · rcases htargets _ htarget with ⟨k, p, hk, hp, hppc, hpshape, hpname⟩
    exact ⟨k, m', hm, hn, hcoherent,
      ⟨p, hp, hppc, hpshape.trans hfresh.symm,
        hpname.trans (hempty hfresh).symm⟩, hk, hscanned, hall,
      hmoves.wanted, hmoves.backup⟩

end Steps

/-!
## A macro
-/

theorem keepsSyntax_stateRefresh (state : MainState) :
    Keeps State.toSyntax (stateRefresh host env state) := by
  unfold stateRefresh
  split
  · apply Keeps.bind Keeps.get
    intro s
    apply Keeps.bind
    · intro t
      apply wp_call (keeps_stringProcess _ t)
      intro _ u hu
      exact toSyntax_of_fixed (congrArg Prod.fst hu)
    intro _
    apply Keeps.bind (keeps_undo _)
    intro _
    exact Keeps.modify (fun _ => rfl)
  · exact Keeps.pure ()

/-- The machine is at the end of a text. -/
structure Ends (host : Host W Reg) (env : Env) (text : Bytes)
    (s : State W Reg) : Prop where
  follows : exists n m, Follows host env text n m s
  pc : text.length ≤ s.machine.macroPc
  insertLen : s.machine.expectstring.insertLen = 0

variable {n m : Nat} {s t : State W Reg}

theorem ends_stateRefresh (hhost : host.Nests False env)
    (h : Follows host env text n m s)
    (hpc : text.length ≤ s.machine.macroPc) :
    wp (stateRefresh host env s.machine.current)
      (fun _ t => Ends host env text t) (fun e _ => Stays e)
      (fun _ => True) s := by
  have hkept := wp_call_and (coherent_stateRefresh h.coherent)
    (keepsFlow_stateRefresh hhost s.machine.current s)
    (fun _ _ hcoherent hflow => And.intro hcoherent hflow)
  have hall := wp_call_and hkept
    (keepsSyntax_stateRefresh s.machine.current s)
    (fun _ _ hkept hshape => And.intro hkept hshape)
  have hstays : Throws Stays (stateRefresh host env s.machine.current) :=
    throws_stateRefresh _
  unfold wp
  have hthrows := hstays s
  unfold wp at hall hthrows
  cases hrun : stateRefresh host env s.machine.current s with
  | fault c => trivial
  | error e t tokens =>
      rw [hrun] at hthrows
      exact hthrows
  | ok a t tokens =>
      rw [hrun] at hall
      rcases hall with ⟨⟨⟨hcoherent, hzero, _⟩, hflow⟩, hshape⟩
      have hpc' : t.machine.macroPc = s.machine.macroPc :=
        congrArg Flow.pc hflow
      refine ⟨⟨n, m, hcoherent, ?_, h.le, ?_, ?_, ?_, ?_⟩, ?_, hzero⟩
      · rcases h.here with ⟨r, hr, hrpc, hrshape, hrname⟩
        exact ⟨r, hr, hrpc.trans hpc'.symm, hrshape.trans hshape.symm,
          hrname.trans (congrArg Flow.name hflow).symm⟩
      · rcases h.scanned with ⟨q, hq, hlabels, hcomplete⟩
        exact ⟨q, hq, hlabels.trans (congrArg Flow.labels hflow).symm,
          fun hset => hcomplete
            ((congrArg Flow.complete hflow).symm.trans hset)⟩
      · rw [hflow]
        exact h.targets
      · intro hwanted
        have htable : t.machine.gotoTable = s.machine.gotoTable :=
          congrArg Flow.labels hflow
        have hlabel : t.gotoSkipLabel = s.gotoSkipLabel :=
          congrArg Flow.wanted hflow
        rw [htable, hlabel]
        rw [hlabel] at hwanted
        exact h.wanted hwanted
      · intro hwanted
        have hlabel : t.gotoSkipLabel = s.gotoSkipLabel :=
          congrArg Flow.wanted hflow
        have hback : t.gotoBackupPc = s.gotoBackupPc :=
          congrArg Flow.backup hflow
        rw [hback]
        exact h.backup (hlabel.symm.trans hwanted)
      · rw [hpc']
        exact hpc

section Runs

variable [DecidableEq Reg]

/-- A character by which a macro returns. -/
theorem stepCharacter_returned {e : TecoError}
    {tokens : List (State W Reg -> State W Reg)}
    (hrun : stepCharacter host env text s = .error e t tokens)
    (hcode : e.code = ErrorCode.returned) :
    Returned (s.fetch text) t ∧
      Returning (s.fetch text) s.machine.current := by
  rcases bind_error hrun with hget | ⟨_, _, _, _, hget, hrest, _⟩
  · cases hget
  cases hget
  cases hcheck : host.check s.editor with
  | some e' =>
      rw [hcheck] at hrest
      cases hrest
      exact absurd hcode (host.check_code _ _ hcheck)
  | none =>
      rw [hcheck] at hrest
      rcases bind_error hrest with hmodify | ⟨_, _, _, _, hmodify, hinput, _⟩
      · cases hmodify
      cases hmodify
      have hreturns : Returns (Returning (s.fetch text) s.machine.current)
          (machineInput host env (s.nextChar text)) (s.fetch text) :=
        returns_machineInput _ _
      unfold Returns wp at hreturns
      have hinput' : machineInput host env (s.nextChar text)
          (s.fetch text) = .error e t _ := hinput
      rw [hinput'] at hreturns
      exact hreturns hcode

omit [DecidableEq Reg] in
/-- No label is looked for when a macro returns. -/
theorem Follows.returned (h : Follows host env text n m s)
    (hreturned : Returned (s.fetch text) t) : t.gotoBackupPc = none := by
  have hflow := hreturned.flow
  have hwanted : s.gotoSkipLabel = [] := by
    by_contra hne
    have hmode := h.coherent.label hne
    have hnormal : s.mode = Mode.normal := hreturned.mode
    rw [hnormal] at hmode
    cases hmode
  have hback : t.gotoBackupPc = s.gotoBackupPc :=
    congrArg Flow.backup hflow
  exact hback.trans (h.backup hwanted)

theorem ends_mainStep (hhost : host.Nests False env) (fuel : Nat)
    (h : Follows host env text n m s) :
    wp (mainStep host env text text.length fuel)
      (fun _ t => Ends host env text t)
      (fun e t => e.code = ErrorCode.returned -> t.gotoBackupPc = none)
      (fun _ => True) s := by
  induction fuel generalizing n m s with
  | zero => trivial
  | succ fuel ih =>
      unfold mainStep
      rw [wp_bind, wp_get, wp_ite]
      split
      case isTrue hpc =>
          rw [wp_bind]
          unfold wp
          cases hrun : stepCharacter host env text s with
          | fault c => trivial
          | error e t tokens =>
              intro hcode
              exact h.returned (stepCharacter_returned hrun hcode).1
          | ok _ t tokens =>
              rcases follows_step hhost h hpc hrun with ⟨n', m', _, _, ht⟩
              exact ih ht
      case isFalse hpc =>
          apply wp_mono (ends_stateRefresh hhost h (Nat.le_of_not_lt hpc))
          · exact fun _ _ hends => hends
          · exact fun _ _ hstays hcode => absurd hcode hstays
          · exact fun _ _ => trivial

omit [DecidableEq Reg] in
theorem keepsBackup_macroReturn (level : Nat) :
    Keeps (fun s : State W Reg => s.gotoBackupPc) (macroReturn level) := by
  apply Keeps.bind Keeps.get
  intro s
  apply Keeps.ite (Keeps.fault _)
  apply Keeps.bind ((keepsFlow_onExpr _).comp Flow.backup)
  intro _
  exact Keeps.modify (fun _ => rfl)

theorem ends_runToEnd (hhost : host.Nests False env) (level fuel : Nat)
    (h : Follows host env text n m s) :
    wp (runToEnd host env text level fuel)
      (fun _ t => t.gotoBackupPc = none ∨ Ends host env text t)
      (fun _ _ => True) (fun _ => True) s := by
  unfold runToEnd
  rw [wp_handle]
  apply wp_mono (ends_mainStep hhost fuel h)
  · exact fun _ _ hends => Or.inr hends
  · intro e t hback
    rw [wp_ite]
    split
    case isTrue hcode =>
        apply wp_call (keepsBackup_macroReturn level t)
        intro _ u hu
        exact Or.inl (hu.trans (hback hcode))
    case isFalse => trivial
  · exact fun _ _ => trivial

variable (host env text) in
/-- The text ends between two commands. -/
def EndsBetween : Prop :=
  forall k r, StaticReading.after host.glib.toUpper env text k = some r ->
    text.length ≤ r.pc -> r.shape.BetweenCommands

omit [DecidableEq Reg] in
/-- Behind a `:O` command whose label is missing. -/
theorem follows_continueAt {pc : Nat} (hclosed : EndsBetween host env text)
    (h : Ends host env text s) (hpc : s.gotoBackupPc = some pc) :
    wp (continueAt env pc)
      (fun _ t => exists n m, Follows host env text n m t)
      (fun _ _ => True) (fun _ => True) s := by
  rcases h.follows with ⟨n, m, hfollows⟩
  rcases hfollows.here with ⟨r, hr, hrpc, hshape, hname⟩
  rcases hfollows.scanned with ⟨q, hq, hlabels, _⟩
  have hlast : text.length ≤ r.pc := by
    rw [hrpc]
    exact h.pc
  have hend : text.length ≤ q.pc := by
    rcases Nat.lt_or_eq_of_le hfollows.le with hlt | rfl
    · exact hlast.trans (Nat.le_of_lt (StaticReading.after_lt hlt hr hq))
    · rw [hr] at hq
      cases hq
      exact hlast
  have hfresh := (StaticReading.tidy_after hr).between (hclosed n r hr hlast)
  have hempty : s.machine.gotoLabel = [] := by
    have hlabel := congrArg Syntax.labelEmpty hfresh
    rw [hshape] at hlabel
    exact List.isEmpty_iff.mp hlabel
  rcases hfollows.targets pc (Flow.Targets.backup hpc) with
    ⟨k, p, hk, hp, hppc, hpshape, hpname⟩
  have hcoherent : wp (continueAt env pc) (fun _ t => Coherent t)
      (fun _ _ => True) (fun _ => True) s :=
    coherent_continueAt pc hfollows.coherent h.insertLen
  unfold continueAt at hcoherent ⊢
  simp only [wp_bind, wp_modify, wp_clearGotoSkipLabel, wp_setMode]
    at hcoherent ⊢
  refine ⟨k, m, hcoherent, ⟨p, hp, hppc, ?_, ?_⟩, hk,
    ⟨q, hq, hlabels, fun _ => hend⟩, ?_, fun hne => absurd rfl hne,
    fun _ => rfl⟩
  · rw [hpshape, <- hfresh, hshape]
    rfl
  · exact hpname.trans hempty.symm
  · intro pc' htarget
    cases htarget with
    | beginning => exact hfollows.targets 0 Flow.Targets.beginning
    | loop hmem => exact hfollows.targets pc' (Flow.Targets.loop hmem)
    | label hmem => exact hfollows.targets pc' (Flow.Targets.label hmem)
    | backup heq => cases heq

/-- Wherever a macro gets to, it follows its static reading. -/
theorem Visits.follows {level : Nat} (hhost : host.Nests False env)
    (hclosed : EndsBetween host env text)
    (hvisits : Visits host env text level s t)
    (h : exists n m, Follows host env text n m s) :
    exists n m, Follows host env text n m t := by
  induction hvisits with
  | here _ => exact h
  | step tokens hpc hrun _ ih =>
      rcases h with ⟨n, m, h⟩
      rcases follows_step hhost h hpc hrun with ⟨n', m', _, _, ht⟩
      exact ih ⟨n', m', ht⟩
  | again fuel tokens tokens' hrun hpc hcontinue _ ih =>
      rcases h with ⟨n, m, h⟩
      have hends := wp_ok (ends_runToEnd hhost _ fuel h) hrun
      rcases hends with hnone | hends
      · rw [hnone] at hpc
        cases hpc
      · exact ih (wp_ok (follows_continueAt hclosed hends hpc) hcontinue)

omit [DecidableEq Reg] in
theorem endsBetween_of_end {q : StaticReading}
    (hq : StaticReading.after host.glib.toUpper env text n = some q)
    (hend : text.length ≤ q.pc) (hbetween : q.shape.BetweenCommands) :
    EndsBetween host env text := by
  intro k r hr hlast
  rw [StaticReading.after_end hq hr hend hlast]
  exact hbetween

/-!
## Results
-/

omit [DecidableEq Reg] in
theorem follows_invoked (hskip : s.gotoSkipLabel = [])
    (hbackup : s.gotoBackupPc = none) :
    exists n m, Follows host env text n m (invoked host s) :=
  ⟨0, 0, follows_init rfl hskip hbackup⟩

/-- The machine is in the syntactic state in which the static reading of the
macro is at the same position. -/
def Agrees (host : Host W Reg) (env : Env) (text : Bytes)
    (s : State W Reg) : Prop :=
  exists n r, StaticReading.after host.glib.toUpper env text n = some r ∧
    r.pc = s.machine.macroPc ∧ r.shape = s.toSyntax ∧
    r.name = s.machine.gotoLabel

/-- However a macro jumps, its characters belong to the commands to which they
belong when it is read from its beginning to its end.  Whenever a position is
reached, it is reached in the same syntactic state. -/
theorem visits_static {level : Nat} (hhost : host.Nests False env)
    (hclosed : EndsBetween host env text) (hskip : s.gotoSkipLabel = [])
    (hbackup : s.gotoBackupPc = none)
    (hvisits : Visits host env text level (invoked host s) t) :
    Agrees host env text t ∧
      forall u, Visits host env text level (invoked host s) u ->
        u.machine.macroPc = t.machine.macroPc ->
        u.toSyntax = t.toSyntax ∧
          u.machine.gotoLabel = t.machine.gotoLabel := by
  have hagrees (v : State W Reg)
      (hv : Visits host env text level (invoked host s) v) :
      Agrees host env text v := by
    rcases hv.follows hhost hclosed (follows_invoked hskip hbackup) with
      ⟨n, m, hfollows⟩
    exact ⟨n, hfollows.here⟩
  refine ⟨hagrees t hvisits, ?_⟩
  intro u hu hpc
  rcases hagrees t hvisits with ⟨n, r, hr, hrpc, hrshape, hrname⟩
  rcases hagrees u hu with ⟨k, q, hq, hqpc, hqshape, hqname⟩
  have hsame := (StaticReading.after_unique hq hr
    (hqpc.trans (hpc.trans hrpc.symm))).2
  rw [<- hqshape, <- hqname, hsame, hrshape, hrname]
  exact ⟨rfl, rfl⟩

/-- A jump to a label behind it. -/
def jumpText : Bytes := utf8 "Oa\x1B!a!"

theorem visits_jumpText {count : Nat} (hcount : count ≤ 6) :
    Visits sampleHost (sampleEnv jumpText jumpText.length 0) jumpText 0
      (invoked sampleHost sampleStart) (sampleSteps jumpText count) := by
  have hstep (k : Nat) (hk : k < 6) :
      (sampleSteps jumpText k).machine.macroPc < jumpText.length ∧
      exists tokens,
        stepCharacter sampleHost (sampleEnv jumpText jumpText.length 0)
          jumpText (sampleSteps jumpText k) =
        .ok () (sampleSteps jumpText (k + 1)) tokens := by
    interval_cases k
    all_goals exact ⟨by decide, _, rfl⟩
  have hall (d k : Nat) (hd : k + d ≤ 6) :
      Visits sampleHost (sampleEnv jumpText jumpText.length 0) jumpText 0
        (sampleSteps jumpText k) (sampleSteps jumpText (k + d)) := by
    induction d generalizing k with
    | zero => exact Visits.here _
    | succ d ih =>
        rcases hstep k (by omega) with ⟨hpc, tokens, hrun⟩
        have hrest := ih (k + 1) (by omega)
        rw [Nat.add_assoc, Nat.add_comm 1 d] at hrest
        exact Visits.step tokens hpc hrun hrest
  have hvisits := hall count 0 (by omega)
  rw [Nat.zero_add] at hvisits
  exact hvisits

theorem endsBetween_jumpText :
    EndsBetween sampleHost (sampleEnv jumpText jumpText.length 0)
      jumpText := by
  have hlast : StaticReading.after sampleHost.glib.toUpper
      (sampleEnv jumpText jumpText.length 0) jumpText 6 =
      some
        { pc := 6
          shape := Syntax.fresh
          name := []
          labels := [(utf8 "a", 6)] } := rfl
  apply endsBetween_of_end hlast
  · decide
  · exact ⟨Or.inl rfl, rfl⟩

theorem visits_static_jump :
    Agrees sampleHost (sampleEnv jumpText jumpText.length 0) jumpText
      (sampleSteps jumpText 6) :=
  (visits_static (sampleHost_made _).nests endsBetween_jumpText rfl rfl
    (visits_jumpText (Nat.le_refl 6))).1

omit [DecidableEq Reg] in
/-- The labels that a machine knows. -/
theorem Follows.labels (h : Follows host env text n m s) {name : Bytes}
    {pc : Nat} :
    gotoTableFind s.machine.gotoTable name = some pc <->
      StaticReading.DefinesFirst host.glib.toUpper env text m name pc := by
  rcases h.scanned with ⟨q, hq, hlabels, _⟩
  rw [<- hlabels]
  exact StaticReading.labels_some hq

omit [DecidableEq Reg] in
/-- A label is unknown, and the macro has been read to its end. -/
theorem Follows.undefined (h : Follows host env text n m s) {name : Bytes}
    (hnone : gotoTableFind s.machine.gotoTable name = none)
    (hend : s.machine.gotoComplete = true ∨
      text.length ≤ s.machine.macroPc) :
    forall pc, ¬ StaticReading.IsLabel host.glib.toUpper env text name pc := by
  rcases h.scanned with ⟨q, hq, hlabels, hcomplete⟩
  rcases h.here with ⟨r, hr, hrpc, _, _⟩
  have hlast : text.length ≤ q.pc := by
    rcases hend with hall | hpc
    · exact hcomplete hall
    · rw [<- hrpc] at hpc
      rcases Nat.lt_or_eq_of_le h.le with hlt | rfl
      · exact hpc.trans
          (Nat.le_of_lt (StaticReading.after_lt hlt hr hq))
      · rw [hr] at hq
        cases hq
        exact hpc
  rw [<- hlabels] at hnone
  rintro pc ⟨_, k, _, hdefines, _⟩
  exact (StaticReading.labels_none hq).mp hnone k
    (hdefines.lt_of_end hq hlast) pc hdefines

/-- A macro knows the labels among the first characters of its text, each with
its first definition, and these characters include all those before its
position.  When the labels are complete, they are all labels of the text. -/
theorem visits_labels {level : Nat} (hhost : host.Nests False env)
    (hclosed : EndsBetween host env text) (hskip : s.gotoSkipLabel = [])
    (hbackup : s.gotoBackupPc = none)
    (hvisits : Visits host env text level (invoked host s) t) :
    (exists n m r, StaticReading.after host.glib.toUpper env text n = some r ∧
      r.pc = t.machine.macroPc ∧ n ≤ m ∧ forall name pc,
        gotoTableFind t.machine.gotoTable name = some pc <->
          StaticReading.DefinesFirst host.glib.toUpper env text m name pc) ∧
      (t.machine.gotoComplete = true -> forall name pc,
        gotoTableFind t.machine.gotoTable name = some pc <->
          StaticReading.IsLabel host.glib.toUpper env text name pc) := by
  rcases hvisits.follows hhost hclosed (follows_invoked hskip hbackup) with
    ⟨n, m, hfollows⟩
  constructor
  · rcases hfollows.here with ⟨r, hr, hrpc, _, _⟩
    exact ⟨n, m, r, hr, hrpc, hfollows.le, fun _ _ => hfollows.labels⟩
  · intro hcomplete name pc
    constructor
    · exact fun hfind => ⟨m, hfollows.labels.mp hfind⟩
    · intro hlabel
      cases hfind : gotoTableFind t.machine.gotoTable name with
      | none =>
          exact absurd hlabel
            (hfollows.undefined hfind (Or.inl hcomplete) pc)
      | some pc' =>
          rcases hlabel with ⟨_, hdefined⟩
          rw [(hfollows.labels.mp hfind).unique hdefined]

theorem visits_labels_jump :
    exists m, StaticReading.DefinesFirst sampleHost.glib.toUpper
      (sampleEnv jumpText jumpText.length 0) jumpText m (utf8 "a") 6 := by
  rcases (visits_labels (sampleHost_made _).nests endsBetween_jumpText rfl
    rfl (visits_jumpText (Nat.le_refl 6))).1 with ⟨_, m, _, _, _, _, hknown⟩
  exact ⟨m, (hknown (utf8 "a") 6).mp rfl⟩

/-- Where the execution goes on behind an `O` command. -/
inductive Lands (host : Host W Reg) (env : Env) (text : Bytes)
    (label : Bytes) (colon : Bool) (s t : State W Reg) : Prop where
  | nowhere (hlabel : label = [])
      (hpc : t.machine.macroPc = (s.fetch text).machine.macroPc)
      (hmode : t.mode = Mode.normal)
  | found (hlabel : StaticReading.IsLabel host.glib.toUpper env text label
        t.machine.macroPc)
      (hmode : t.mode = Mode.normal)
  | missing (hcolon : colon = true)
      (hnone : forall pc,
        ¬ StaticReading.IsLabel host.glib.toUpper env text label pc)
      (hpc : t.machine.macroPc = (s.fetch text).machine.macroPc)
      (hmode : t.mode = Mode.normal)
  | searching (hlabel : label ≠ []) (hskip : t.gotoSkipLabel = label)
      (hpc : t.machine.macroPc = (s.fetch text).machine.macroPc)

omit [DecidableEq Reg] in
theorem Follows.notSearching (h : Follows host env text n m s)
    (hmode : s.mode = Mode.normal) : s.gotoSkipLabel = [] := by
  by_contra hne
  have hgoto := h.coherent.label hne
  rw [hmode] at hgoto
  cases hgoto

omit [DecidableEq Reg] in
/-- A search ends with the definition of the label. -/
theorem Flow.found_readLabel {f : Flow} {chr : Gunichar}
    (hwanted : f.wanted ≠ []) (hfound : (f.readLabel chr).wanted = []) :
    gotoTableFind (f.readLabel chr).labels f.wanted =
      some (f.readLabel chr).pc := by
  unfold Flow.readLabel Flow.endLabel at hfound ⊢
  by_cases hblock : f.name = [] ∧ chr = '*'.toNat
  · rw [if_pos hblock] at hfound
    exact absurd hfound hwanted
  rw [if_neg hblock] at hfound ⊢
  by_cases heol : f.name = [] ∧ chr = '!'.toNat
  · rw [if_pos heol] at hfound
    exact absurd hfound hwanted
  rw [if_neg heol] at hfound ⊢
  by_cases hend : chr = '!'.toNat
  · rw [if_pos hend] at hfound ⊢
    cases hfind : gotoTableFind f.labels f.name with
    | some pc =>
        rw [hfind] at hfound
        exact absurd hfound hwanted
    | none =>
        rw [hfind] at hfound
        dsimp only at hfound ⊢
        by_cases hname : f.wanted ≠ [] ∧ f.name = f.wanted
        · rw [if_pos hname, hname.2]
          exact List.lookup_cons_self
        · rw [if_neg hname] at hfound
          exact absurd hfound hwanted
  · rw [if_neg hend] at hfound
    exact absurd hfound hwanted

/-- A search ends behind the first definition of the label. -/
theorem Follows.found {u : State W Reg}
    {tokens : List (State W Reg -> State W Reg)}
    (hhost : host.Nests False env) (h : Follows host env text n m s)
    (hpc : s.machine.macroPc < text.length)
    (hrun : stepCharacter host env text s = .ok () u tokens)
    (hwanted : s.gotoSkipLabel ≠ []) (hfound : u.gotoSkipLabel = []) :
    u.mode = Mode.normal ∧
      StaticReading.IsLabel host.glib.toUpper env text s.gotoSkipLabel
        u.machine.macroPc := by
  have hsame (hflow : u.flow.wanted = (s.fetch text).flow.wanted) : False :=
    hwanted (hflow.symm.trans hfound)
  rcases follows_step hhost h hpc hrun with ⟨n', m', _, _, hu⟩
  rcases follows_character hhost h hpc hrun with
    ⟨_, _, _, _, _, _, _, hcourse, _⟩
  cases hcourse with
  | kept _ _ hflow => exact (hsame (congrArg Flow.wanted hflow)).elim
  | steers _ _ _ _ hsteers =>
      exact (hsame (congrArg Flow.wanted hsteers.rest :)).elim
  | label _ hflow hmode =>
      refine ⟨hmode hwanted hfound, m', hu.labels.mp ?_⟩
      have hcleared : ((s.fetch text).flow.readLabel
          (s.nextChar text)).wanted = [] := by
        rw [<- hflow]
        exact hfound
      have hfind := Flow.found_readLabel hwanted hcleared
      rw [<- hflow] at hfind
      exact hfind
  | goto _ _ hmode _ => exact absurd (h.notSearching hmode) hwanted

/-- The labels of `O` are complete. -/
theorem Follows.lands {u : State W Reg}
    {tokens : List (State W Reg -> State W Reg)}
    (hhost : host.Nests False env) (h : Follows host env text n m s)
    (hpc : s.machine.macroPc < text.length)
    (hrun : stepCharacter host env text s = .ok () u tokens)
    (hstring : s.machine.current =
      MainState.expectstring StringCommand.goto)
    (hmode : s.mode = Mode.normal)
    (hcurrent : u.machine.current = MainState.start) :
    exists value e tokens,
      Expressions.popNumCalc 0 s.editor.expr = .ok value e tokens ∧
        Lands host env text
          (selectLabel s.machine.expectstring.string value)
          (decide (0 < s.machine.flags.modifierColon)) s u := by
  have hwanted := h.notSearching hmode
  rcases follows_character hhost h hpc hrun with
    ⟨_, _, _, _, _, _, _, hcourse, _⟩
  cases hcourse with
  | kept _ hskipped _ => exact absurd hmode (hskipped hstring hcurrent)
  | steers _ hargument _ _ _ => exact absurd hstring hargument
  | label hlabel _ _ =>
      have hlabel' : s.machine.current = MainState.label := hlabel
      rw [hlabel'] at hstring
      cases hstring
  | goto _ _ _ hgoto =>
      rcases hgoto.goes with ⟨value, e, tokens, hvalue, hgoes⟩
      refine ⟨value, e, tokens, hvalue, ?_⟩
      have hnormal (hkept : u.flow.wanted = (s.fetch text).flow.wanted) :
          u.mode = Mode.normal := by
        rcases hgoto.mode with hsame | hsearching
        · exact hsame.trans hmode
        · exact absurd (hkept.trans hwanted) hsearching
      generalize hflow : u.flow = g at hgoes hnormal
      have hplace : u.machine.macroPc = g.pc := congrArg Flow.pc hflow
      have hsearch : u.gotoSkipLabel = g.wanted :=
        congrArg Flow.wanted hflow
      cases hgoes with
      | nowhere hnone => exact Lands.nowhere hnone hplace (hnormal rfl)
      | known pc _ hfind =>
          apply Lands.found _ (hnormal rfl)
          rw [hplace]
          exact ⟨m, h.labels.mp hfind⟩
      | missing _ hfind hcomplete hcolon =>
          exact Lands.missing hcolon
            (h.undefined hfind (Or.inl hcomplete)) hplace (hnormal rfl)
      | wanted hlabel _ _ => exact Lands.searching hlabel hsearch hplace

/-- An `O` command goes on behind the first definition of the label that its
argument selects, or it looks for it.  The search ends behind the first
definition, and when it gets to the end of the macro there is none. -/
theorem goto_lands {level : Nat} (hhost : host.Nests False env)
    (hclosed : EndsBetween host env text) (hskip : s.gotoSkipLabel = [])
    (hbackup : s.gotoBackupPc = none)
    (hvisits : Visits host env text level (invoked host s) t) :
    (forall u tokens, t.machine.macroPc < text.length ->
      stepCharacter host env text t = .ok () u tokens ->
      (t.machine.current = MainState.expectstring StringCommand.goto ->
        t.mode = Mode.normal -> u.machine.current = MainState.start ->
        exists value e tokens',
          Expressions.popNumCalc 0 t.editor.expr = .ok value e tokens' ∧
            Lands host env text
              (selectLabel t.machine.expectstring.string value)
              (decide (0 < t.machine.flags.modifierColon)) t u) ∧
      (t.gotoSkipLabel ≠ [] -> u.gotoSkipLabel = [] ->
        u.mode = Mode.normal ∧
          StaticReading.IsLabel host.glib.toUpper env text t.gotoSkipLabel
            u.machine.macroPc)) ∧
      (t.gotoSkipLabel ≠ [] -> text.length ≤ t.machine.macroPc ->
        forall pc, ¬ StaticReading.IsLabel host.glib.toUpper env text
          t.gotoSkipLabel pc) := by
  rcases hvisits.follows hhost hclosed (follows_invoked hskip hbackup) with
    ⟨n, m, hfollows⟩
  constructor
  case right =>
    exact fun hwanted hend =>
      hfollows.undefined (hfollows.wanted hwanted) (Or.inr hend)
  case left =>
    intro u tokens hpc hrun
    constructor
    · exact fun hstring hmode hcurrent =>
        hfollows.lands hhost hpc hrun hstring hmode hcurrent
    · exact fun hwanted hfound =>
        hfollows.found hhost hpc hrun hwanted hfound

theorem goto_lands_jump :
    (sampleSteps jumpText 6).mode = Mode.normal ∧
      StaticReading.IsLabel sampleHost.glib.toUpper
        (sampleEnv jumpText jumpText.length 0) jumpText (utf8 "a") 6 := by
  have hrun : exists tokens,
      stepCharacter sampleHost (sampleEnv jumpText jumpText.length 0)
        jumpText (sampleSteps jumpText 5) =
      .ok () (sampleSteps jumpText 6) tokens := ⟨_, rfl⟩
  rcases hrun with ⟨tokens, hrun⟩
  have hlands := (goto_lands (sampleHost_made _).nests endsBetween_jumpText
    rfl rfl (visits_jumpText (Nat.le_succ 5))).1
  exact (hlands _ tokens (by decide) hrun).2 (by decide) rfl

end Runs

end Parser
end SciTECO
