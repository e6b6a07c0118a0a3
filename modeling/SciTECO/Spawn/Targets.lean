import Mathlib.Logic.Relation
import SciTECO.Spawn.Execute

/-!
# The targets of EC and EG

Every command which completes takes back `register_argument`, unless it is an
EG whose range is not valid and which returns a boolean instead of an error.
-/

namespace SciTECO
namespace Spawn

open Eol Undoable

variable {ρ : Type}

/-- The document and the registers. -/
def Editor.contents (s : Editor ρ) :
    (Bytes × Nat) × (String -> Register ρ) :=
  ((s.text, s.dot), s.registers)

namespace Command

/-- When the arguments are fetched. -/
def begun (c : Command) (s : Editor ρ) : Editor ρ :=
  match c.register with
  | none => c.typed s
  | some qreg => { c.typed s with registerArgument := some qreg }

/-- The arguments describe no range of the document. -/
def BadRange (sci : Scintilla) (c : Command) (s : Editor ρ) : Prop :=
  exists t tokens, Editor.executeArgs sci (c.begun s) = .ok false t tokens

/-- An EG that returns a boolean instead of an error for its range. -/
def Forgets (sci : Scintilla) (c : Command) (s : Editor ρ) : Prop :=
  c.register ≠ none ∧ c.modifierColon ≠ 0 ∧ c.BadRange sci s

/-- The main loop of the command, from some output on. -/
def Ends (vtable : VTable ρ) (fuel : Nat) (c : Command) (start : Output ρ)
    (ctx : Context ρ) : Prop :=
  exists child, c.spawn = .ok child ∧
    mainLoop vtable fuel child.events
      (Context.start child.stream start child.memory) = some ctx

/-- What becomes of the output: no child is started, or the output goes into
the document, or into the register that is pending. -/
inductive Writes (vtable : String -> VTable ρ) (fuel : Nat) (c : Command)
    (pending : Option String) (s t : Editor ρ) : Prop where
  | nothing (hstart : c.str = [] ∨ 0 ∈ c.str ∨ exists e, c.spawn = .error e)
      (hcontents : t.contents = s.contents)
  | document (hpending : pending = none) (ctx : Context ρ) (added : Bytes)
      (first last : Nat) (hends : c.Ends (vtable "") fuel (.document []) ctx)
      (houtput : ctx.output = .document added) (hrange : first <= last)
      (hcontents : t.contents =
        ((s.text.take first ++ added ++ s.text.drop last,
          first + added.length), s.registers))
  | register (qreg : String) (hpending : pending = some qreg)
      (ctx : Context ρ) (cell : ρ)
      (hends : c.Ends (vtable qreg) fuel (.register (s.registers qreg).cell)
        ctx)
      (houtput : ctx.output = .register cell)
      (hcontents : t.contents =
        (s.setRegister qreg cell ctx.reader.eolStyle).contents)

theorem Writes.of_contents {vtable : String -> VTable ρ} {fuel : Nat}
    {c : Command} {pending : Option String} {s s' t t' : Editor ρ}
    (h : c.Writes vtable fuel pending s' t) (hs : s'.contents = s.contents)
    (ht : t'.contents = t.contents) : c.Writes vtable fuel pending s t' := by
  have htext : s'.text = s.text := congrArg (fun w => w.1.1) hs
  have hregisters : s'.registers = s.registers := congrArg Prod.snd hs
  cases h with
  | nothing hstart hcontents =>
      exact .nothing hstart (ht.trans (hcontents.trans hs))
  | document hpending ctx added first last hends houtput hrange hcontents =>
      rw [htext, hregisters] at hcontents
      exact .document hpending ctx added first last hends houtput hrange
        (ht.trans hcontents)
  | register qreg hpending ctx cell hends houtput hcontents =>
      rw [hregisters] at hends
      apply Writes.register qreg hpending ctx cell hends houtput
      apply ht.trans (hcontents.trans _)
      unfold Editor.contents Editor.setRegister
      rw [htext, hregisters, show s'.dot = s.dot from
        congrArg (fun w => w.1.2) hs]

/-- A command has completed: no register is pending, and nothing but the
target of the command has changed. -/
structure Completes (sci : Scintilla) (vtable : String -> VTable ρ)
    (fuel : Nat) (c : Command) (s t : Editor ρ) : Prop where
  pending : t.registerArgument = none
  contents : c.BadRange sci s ∧ t.contents = s.contents ∨
    c.Writes vtable fuel c.register s t

end Command

namespace Editor

/-!
## The arguments
-/

/-- What fetching the arguments does not change. -/
def waiting (s : Editor ρ) :
    ((Bytes × Nat) × (String -> Register ρ)) × Option String × Nat :=
  (s.contents, s.registerArgument, s.modifierColon)

theorem expressions_keeps {α : Type} (m : Exec Expressions α) :
    Keeps waiting
      (zoom (expressionsPart : Lens (Editor ρ) Expressions) m) :=
  Keeps.zoom m (fun _ _ => rfl)

theorem executeLines_keeps (sci : Scintilla) :
    Keeps waiting (executeLines sci : Exec (Editor ρ) Bool) := by
  unfold executeLines
  apply Keeps.bind
  · exact Keeps.modify (fun _ => rfl)
  intro _
  apply Keeps.bind Keeps.get
  intro s
  apply Keeps.bind (expressions_keeps _)
  intro count
  apply Keeps.bind
  · exact Keeps.modify (fun _ => rfl)
  intro _
  apply Keeps.bind
  · apply Keeps.modify
    intro t
    split <;> rfl
  · intro _
    exact Keeps.pure _

theorem executeRange_keeps (sci : Scintilla) :
    Keeps waiting (executeRange sci : Exec (Editor ρ) Bool) := by
  unfold executeRange
  apply Keeps.bind Keeps.get
  intro s
  apply Keeps.bind (expressions_keeps _)
  intro last
  apply Keeps.bind (expressions_keeps _)
  intro first
  apply Keeps.bind
  · exact Keeps.modify (fun _ => rfl)
  · intro _
    exact Keeps.pure _

theorem executeArgs_keeps (sci : Scintilla) :
    Keeps waiting (executeArgs sci : Exec (Editor ρ) Bool) := by
  unfold executeArgs
  apply Keeps.bind (expressions_keeps _)
  intro _
  apply Keeps.bind Keeps.get
  intro s
  apply Keeps.ite
  · apply Keeps.ite
    · apply Keeps.bind
      · exact Keeps.modify (fun _ => rfl)
      · intro _
        exact Keeps.pure _
    · exact executeLines_keeps sci
  · apply Keeps.ite
    · exact executeLines_keeps sci
    · exact executeRange_keeps sci

/-- The range is one of the document. -/
def RangeSet (valid : Bool) (t : Editor ρ) : Prop :=
  valid = true -> 0 <= t.fromPos ∧ t.fromPos <= t.toPos

theorem executeLines_range (sci : Scintilla) (s : Editor ρ) :
    wp (executeLines sci) RangeSet (fun _ _ => True) (fun _ => True) s := by
  unfold executeLines
  rw [wp_bind, wp_modify, wp_bind, wp_get, wp_bind]
  have hkeeps (m : Exec Expressions TecoInt) :
      Keeps (fun t : Editor ρ => (t.text, t.fromPos))
        (zoom expressionsPart m) :=
    Keeps.zoom m (fun _ _ => rfl)
  apply (hkeeps _).wp _ (fun _ _ => trivial) (fun _ => trivial)
  intro count t ht
  have htext : t.text = s.text := congrArg Prod.fst ht
  have hfrom : t.fromPos = s.dot := congrArg Prod.snd ht
  rw [wp_bind, wp_modify, wp_bind, wp_modify, wp_pure]
  intro hvalid
  rcases of_decide_eq_true hvalid with ⟨hline, hcount⟩
  have hpos := sci.positionFromLine_nonneg hline hcount
  have hdot : 0 <= t.fromPos := by
    rw [hfrom]
    exact Int.natCast_nonneg _
  split
  case isTrue hswap => exact ⟨hpos, Int.le_of_lt hswap⟩
  case isFalse hkeep => exact ⟨hdot, Int.not_lt.mp hkeep⟩

theorem executeRange_range (sci : Scintilla) (s : Editor ρ) :
    wp (executeRange sci) RangeSet (fun _ _ => True) (fun _ => True) s := by
  unfold executeRange
  rw [wp_bind, wp_get, wp_bind]
  apply wp_of_forall _ (fun _ _ => trivial) (fun _ => trivial)
  intro last t
  rw [wp_bind]
  apply wp_of_forall _ (fun _ _ => trivial) (fun _ => trivial)
  intro first t
  rw [wp_bind, wp_modify, wp_pure]
  intro hvalid
  rcases of_decide_eq_true hvalid with ⟨hle, hfrom, _⟩
  exact ⟨hfrom, hle⟩

theorem executeArgs_range (sci : Scintilla) (s : Editor ρ) :
    wp (executeArgs sci) RangeSet (fun _ _ => True) (fun _ => True) s := by
  unfold executeArgs
  rw [wp_bind]
  apply wp_of_forall _ (fun _ _ => trivial) (fun _ => trivial)
  intro _ t
  rw [wp_bind, wp_get, wp_ite]
  split
  · rw [wp_ite]
    split
    · rw [wp_bind, wp_modify, wp_pure]
      intro _
      exact ⟨Int.natCast_nonneg _, Int.le_refl _⟩
    · exact executeLines_range sci t
  · rw [wp_ite]
    split
    · exact executeLines_range sci t
    · exact executeRange_range sci t

theorem evalColon_spec (s : Editor ρ) {fail : TecoError -> Editor ρ -> Prop}
    {bad : Fault -> Prop} :
    wp evalColon (fun colon t => colon = s.modifierColon ∧
      t = { s with modifierColon := 0 }) fail bad s := by
  unfold evalColon
  rw [wp_bind, wp_get, wp_ite]
  split
  case isTrue hzero =>
      rw [wp_pure, <- hzero]
      exact ⟨rfl, rfl⟩
  case isFalse =>
      rw [wp_bind, wp_emit, wp_bind, wp_modify, wp_pure]
      exact ⟨rfl, rfl⟩

/-- The range has been set, or a boolean has been returned instead. -/
structure Initialized (sci : Scintilla) (s t : Editor ρ) : Prop where
  contents : t.contents = s.contents
  registerArgument : t.registerArgument = s.registerArgument
  range : 0 <= t.fromPos ∧ t.fromPos <= t.toPos ∨
    t.fromPos < 0 ∧ s.modifierColon ≠ 0 ∧
      exists u tokens, executeArgs sci s = .ok false u tokens

theorem executeInitial_spec (sci : Scintilla) (s : Editor ρ) :
    wp (executeInitial sci) (fun _ t => Initialized sci s t)
      (fun _ _ => True) (fun _ => True) s := by
  unfold executeInitial
  rw [wp_bind]
  apply wp_call_and (wp_returns _ s)
    (wp_call_and (executeArgs_range sci s) (executeArgs_keeps sci s)
      (fun _ _ hrange hkeeps => And.intro hrange hkeeps))
  intro valid t hrun hargs
  rcases hargs with ⟨hrange, hkeeps⟩
  have hcontents : t.contents = s.contents := congrArg Prod.fst hkeeps
  have hregister : t.registerArgument = s.registerArgument :=
    congrArg (fun w => w.2.1) hkeeps
  have hcolon : t.modifierColon = s.modifierColon :=
    congrArg (fun w => w.2.2) hkeeps
  cases valid with
  | true => exact ⟨hcontents, hregister, Or.inl (hrange rfl)⟩
  | false =>
      rw [if_neg Bool.false_ne_true, wp_bind]
      apply wp_call (evalColon_spec t)
      intro colon t' hcolon'
      rcases hcolon' with ⟨heq, ht'⟩
      subst heq ht'
      rw [wp_ite]
      split
      case isTrue => trivial
      case isFalse hmodified =>
          rw [wp_bind]
          apply (expressions_keeps _).wp _ (fun _ _ => trivial)
            (fun _ => trivial)
          intro _ u hu
          rw [wp_modify]
          rw [hcolon] at hmodified
          constructor
          · exact (congrArg Prod.fst hu).trans hcontents
          · exact (congrArg (fun w => w.2.1) hu).trans hregister
          · apply Or.inr
            exact ⟨(by decide : (-1 : Int) < 0), hmodified, t, hrun⟩

/-!
## The child
-/

/-- The contents after `teco_state_execute_done()` has run the child. -/
theorem runChild_spec (vtable : String -> VTable ρ) (fuel : Nat)
    {c : Command} {child : Child} (hspawn : c.spawn = .ok child)
    {s : Editor ρ} (hto : s.fromPos <= s.toPos) :
    wp (runChild vtable fuel child)
      (fun _ t => c.Writes vtable fuel s.registerArgument s t)
      (fun _ _ => True) (fun _ => True) s := by
  unfold runChild
  rw [wp_bind, wp_get]
  split
  case h_1 => trivial
  case h_2 ctx hloop =>
      rw [wp_bind]
      unfold writeOutput
      rw [wp_bind, wp_get]
      cases hregister : s.registerArgument with
      | none =>
          cases houtput : ctx.output with
          | document added =>
              have hends : c.Ends (vtable "") fuel (.document []) ctx := by
                refine ⟨child, hspawn, ?_⟩
                unfold output vtableOf at hloop
                rw [hregister] at hloop
                exact hloop
              rw [wp_modify, wp_pure]
              exact .document rfl ctx added s.fromPos.toNat s.toPos.toNat
                hends houtput (Int.toNat_le_toNat hto) rfl
          | register cell => trivial
      | some qreg =>
          cases houtput : ctx.output with
          | document added => trivial
          | register cell =>
              have hends : c.Ends (vtable qreg) fuel
                  (.register (s.registers qreg).cell) ctx := by
                refine ⟨child, hspawn, ?_⟩
                unfold output vtableOf at hloop
                rw [hregister] at hloop
                exact hloop
              rw [wp_modify, wp_pure]
              exact .register qreg rfl ctx cell hends houtput rfl

theorem spawnChild_spec (vtable : String -> VTable ρ) (fuel : Nat)
    (c : Command) {s : Editor ρ} (hto : s.fromPos <= s.toPos) :
    wp (spawnChild vtable fuel c.str c.spawn)
      (fun _ t => c.Writes vtable fuel s.registerArgument s t)
      (fun _ _ => True) (fun _ => True) s := by
  unfold spawnChild
  rw [wp_ite]
  split
  case isTrue hstr =>
      rw [wp_pure]
      rcases hstr with hstr | hstr
      · exact .nothing (Or.inl hstr) rfl
      · exact .nothing (Or.inr (Or.inl hstr)) rfl
  case isFalse =>
      cases hspawn : c.spawn with
      | error e =>
          rw [wp_pure]
          exact .nothing (Or.inr (Or.inr ⟨e, hspawn⟩)) rfl
      | ok child => exact runChild_spec vtable fuel hspawn hto


theorem executeResult_keeps (colon : Nat) (rc : Int) (error : Option Failure) :
    Keeps waiting (executeResult colon rc error : Exec (Editor ρ) Unit) := by
  cases error with
  | none => exact Keeps.ite (expressions_keeps _) (Keeps.pure ())
  | some e => exact Keeps.ite (Keeps.throw _) (expressions_keeps _)

theorem executeDone_spec (vtable : String -> VTable ρ) (fuel : Nat)
    (c : Command) {s : Editor ρ} (hfrom : 0 <= s.fromPos)
    (hto : s.fromPos <= s.toPos) :
    wp (executeDone vtable fuel c.str c.spawn)
      (fun _ t => t.registerArgument = none ∧
        c.Writes vtable fuel s.registerArgument s t)
      (fun _ _ => True) (fun _ => True) s := by
  unfold executeDone
  rw [wp_bind, wp_get, wp_ite, if_neg (Int.not_lt.mpr hfrom), wp_bind]
  apply wp_call (spawnChild_spec vtable fuel c hto)
  intro result t hwrites
  rcases result with ⟨error, rc⟩
  dsimp only
  rw [wp_bind]
  apply wp_call (evalColon_spec t)
  intro colon u hu
  rw [wp_bind]
  apply (executeResult_keeps colon rc error).wp _ (fun _ _ => trivial)
    (fun _ => trivial)
  intro _ v hv
  unfold setRegisterArgument
  rw [wp_bind, wp_get, wp_bind, wp_emit, wp_modify]
  refine ⟨rfl, hwrites.of_contents rfl ?_⟩
  have hcontents : v.contents = u.contents := congrArg Prod.fst hv
  rw [hu.2] at hcontents
  exact hcontents

end Editor

/-!
## Runs
-/

namespace Command

theorem begin_spec (c : Command) (s : Editor ρ)
    {fail : TecoError -> Editor ρ -> Prop} {bad : Fault -> Prop} :
    wp c.begin (fun _ t => t = c.begun s) fail bad s := by
  unfold begin begun
  rw [wp_bind, wp_modify]
  cases c.register with
  | none => rfl
  | some qreg => rfl

theorem begun_contents (c : Command) (s : Editor ρ) :
    (c.begun s).contents = s.contents := by
  unfold begun
  split <;> rfl

theorem begun_registerArgument {c : Command} {s : Editor ρ}
    (h : s.registerArgument = none) :
    (c.begun s).registerArgument = c.register := by
  unfold begun
  split
  case h_1 hnone => exact h.trans hnone.symm
  case h_2 qreg hsome => exact hsome.symm

theorem begun_modifierColon (c : Command) (s : Editor ρ) :
    (c.begun s).modifierColon = c.modifierColon := by
  unfold begun
  split <;> rfl

theorem run_spec (sci : Scintilla) (vtable : String -> VTable ρ) (fuel : Nat)
    {c : Command} {s : Editor ρ} (hpending : s.registerArgument = none)
    (hforgets : ¬c.Forgets sci s) :
    wp (c.run sci vtable fuel) (fun _ t => c.Completes sci vtable fuel s t)
      (fun _ _ => True) (fun _ => True) s := by
  unfold run
  rw [wp_bind]
  apply wp_call (begin_spec c s)
  intro _ t ht
  subst ht
  rw [wp_bind]
  apply wp_call (Editor.executeInitial_spec sci (c.begun s))
  intro _ t hinit
  have hcontents := hinit.contents.trans (begun_contents c s)
  have hregister := hinit.registerArgument.trans
    (begun_registerArgument hpending)
  rcases hinit.range with ⟨hfrom, hto⟩ | ⟨hfrom, hcolon, u, tokens, hbad⟩
  · apply wp_call (Editor.executeDone_spec vtable fuel c hfrom hto)
    intro _ v hv
    rw [hregister] at hv
    exact ⟨hv.1, Or.inr (hv.2.of_contents hcontents rfl)⟩
  · -- executeDone returns early, and nothing has been pending.
    have hrange : c.BadRange sci s := ⟨u, tokens, hbad⟩
    have hnone : c.register = none := by
      by_contra hsome
      rw [begun_modifierColon] at hcolon
      exact hforgets ⟨hsome, hcolon, hrange⟩
    unfold Editor.executeDone
    rw [wp_bind, wp_get, wp_ite, if_pos hfrom, wp_pure]
    exact ⟨hregister.trans hnone, Or.inl ⟨hrange, hcontents⟩⟩

end Command

/-- A command which lets the execution go on. -/
def Step (sci : Scintilla) (vtable : String -> VTable ρ)
    (cond : Command -> Editor ρ -> Prop) (s t : Editor ρ) : Prop :=
  exists c fuel tokens, cond c s ∧ c.run sci vtable fuel s = .ok () t tokens

/-- In every run without an EG that forgets its register, no register is
pending after a command, and every command writes to its own target. -/
theorem run_completes {sci : Scintilla} {vtable : String -> VTable ρ}
    {s₀ s : Editor ρ} (hstart : s₀.registerArgument = none)
    (hrun : Relation.ReflTransGen
      (Step sci vtable (fun c t => ¬c.Forgets sci t)) s₀ s) :
    s.registerArgument = none ∧
      forall (c : Command) (fuel : Nat) (t : Editor ρ)
        (tokens : List (Editor ρ -> Editor ρ)), ¬c.Forgets sci s ->
        c.run sci vtable fuel s = .ok () t tokens ->
          c.Completes sci vtable fuel s t := by
  have hnone : s.registerArgument = none := by
    induction hrun with
    | refl => exact hstart
    | tail _ hstep ih =>
        rcases hstep with ⟨c, fuel, tokens, hforgets, hok⟩
        exact (wp_ok (Command.run_spec sci vtable fuel ih hforgets)
          hok).pending
  refine ⟨hnone, ?_⟩
  intro c fuel t tokens hforgets hok
  have hspec := Command.run_spec sci vtable fuel hnone hforgets
  have hcompletes := wp_ok hspec hok
  exact hcompletes

/-- A document without line ends, in a single-byte encoding. -/
def oneLine : Scintilla where
  lineFromPosition _ _ := 0
  positionFromLine _ line := if line = 0 then 0 else -1
  lineCount _ := 1
  glyphs2bytes text pos :=
    if 0 <= pos ∧ pos <= text.length then pos else -1
  positionFromLine_nonneg := by
    intro text line hline hcount
    have hzero : line = 0 := by omega
    exact Int.le_of_eq (if_pos hzero).symm

/-- The child writes a single byte. -/
def sampleChild : Child where
  stream := ⟨[[120]], by decide⟩
  memory := []
  events := [.child (.exited 0)]

/-- Two bytes in the document and no strings in the registers. -/
def sampleEditor : Editor Bytes where
  expressions := Expressions.initial
  modifierColon := 0
  text := [97, 98]
  dot := 1
  registers _ := { cell := [], integer := 0, eolMode := .lf }
  registerArgument := none
  fromPos := 0
  toPos := 0

/-- `EGq` without arguments. -/
theorem run_completes_register :
    exists t tokens,
      (Command.mk (some "q") Expressions.initial 0 [99]
          (.ok sampleChild)).run oneLine (fun _ => VTable.plain) 8
          sampleEditor = .ok () t tokens ∧
        (t.registers "q").cell = [120] ∧
        (Command.mk (some "q") Expressions.initial 0 [99]
          (.ok sampleChild)).Completes oneLine (fun _ => VTable.plain) 8
          sampleEditor t := by
  have hrun : Relation.ReflTransGen (Step oneLine (fun _ => VTable.plain)
      (fun c t => ¬c.Forgets oneLine t)) sampleEditor sampleEditor := .refl
  refine ⟨_, _, rfl, rfl, ?_⟩
  apply (run_completes rfl hrun).2 _ 8 _ _ _ rfl
  intro hforgets
  exact hforgets.2.1 rfl

/-- `9:EGq` fails for its range, and the next `EC` writes to the register. -/
theorem run_forgets :
    exists t u tokens tokens',
      (Command.mk (some "q") ⟨[9], [.number], 1, 0⟩ 1 [99]
          (.ok sampleChild)).run oneLine (fun _ => VTable.plain) 8
          sampleEditor = .ok () t tokens ∧
        t.registerArgument = some "q" ∧
        (Command.mk none Expressions.initial 0 [99] (.ok sampleChild)).run
          oneLine (fun _ => VTable.plain) 8 t = .ok () u tokens' ∧
        u.text = sampleEditor.text ∧ (u.registers "q").cell = [120] :=
  ⟨_, _, _, _, rfl, rfl, rfl, rfl, rfl⟩

end Spawn
end SciTECO
