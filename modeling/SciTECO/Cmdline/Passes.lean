import SciTECO.Cmdline.Invariant

/-!
# Executing a line again

Characters that have been executed once are executed again in the same way,
when the machine gets back to where they stand.
-/

namespace SciTECO
namespace Cmdline

open PositionLog Undoable Interpreter

variable {σ : Type}

/-!
## Passes
-/

variable (I : Interpreter σ)

/-- Passes of the loop. -/
inductive Goes : Nat -> Insertion σ -> Insertion σ -> Prop where
  | refl (l : Insertion σ) : Goes 0 l l
  | pass {n : Nat} {l l' l'' : Insertion σ} :
      l.cmdline.pc < l.cmdline.effectiveLen -> pass I l = .again l' ->
      Goes n l' l'' -> Goes (n + 1) l l''

/-- The rest of the command line is executed without an error. -/
inductive Completes : Insertion σ -> Cmdline σ -> Prop where
  | done {l : Insertion σ} :
      ¬ l.cmdline.pc < l.cmdline.effectiveLen -> Completes l l.cmdline
  | byte {l : Insertion σ} {c d : Cmdline σ} :
      l.cmdline.pc < l.cmdline.effectiveLen ->
      onMachine (I.step l.cmdline.view) l.cmdline = .ok () c [] ->
      Completes { l with cmdline := { c with pc := c.pc + 1 } } d ->
      Completes l d

variable {I} {l l' l'' : Insertion σ} {m n : Nat}

namespace Goes

theorem trans (h : Goes I m l l') (h' : Goes I n l' l'') :
    Goes I (m + n) l l'' := by
  induction h with
  | refl l =>
      rw [Nat.zero_add]
      exact h'
  | pass hlt hpass _ ih =>
      rw [Nat.add_right_comm]
      exact Goes.pass hlt hpass (ih h')

theorem insertLoop_eq (h : Goes I n l l') (fuel : Nat) :
    insertLoop I (n + fuel) l = insertLoop I fuel l' := by
  induction h with
  | refl l => rw [Nat.zero_add]
  | pass hlt hpass _ ih =>
      rw [Nat.add_right_comm, insertLoop, if_pos hlt, hpass]
      exact ih

/-- All passes have to be made. -/
theorem le_of_ok (h : Goes I n l l') {fuel : Nat} {d : Cmdline σ}
    {tokens : List (Cmdline σ -> Cmdline σ)}
    (hok : insertLoop I fuel l = .ok () d tokens) : n ≤ fuel := by
  induction h generalizing fuel with
  | refl l => exact Nat.zero_le fuel
  | pass hlt hpass _ ih =>
      cases fuel with
      | zero => cases hok
      | succ fuel =>
          rw [insertLoop, if_pos hlt, hpass] at hok
          exact Nat.succ_le_succ (ih hok)

end Goes

theorem Completes.insertLoop_eq {d : Cmdline σ} (h : Completes I l d) :
    exists fuel, insertLoop I fuel l = .ok () d [] := by
  induction h with
  | done hnot =>
      refine ⟨1, ?_⟩
      rw [insertLoop, if_neg hnot]
  | byte hlt hrun _ ih =>
      rcases ih with ⟨fuel, hfuel⟩
      refine ⟨fuel + 1, ?_⟩
      rw [insertLoop, if_pos hlt]
      unfold pass
      rw [hrun]
      exact hfuel

/-!
## Characters
-/

variable (I) (s₀ : σ)

/-- In a command line of the effective length `e` a character is executed as if
it were the last one, and its undo tokens restore the state in front of it. -/
def PlainAt (e : Nat) (text : List Gunichar) (chr : Gunichar) : Prop :=
  forall behind heads s log (c : Cmdline σ),
    ValidText (text ++ chr :: behind) -> Executed I s₀ text heads s ->
      Steps I (encoded (text ++ [chr])) (encoded text).length
        (I.setMacroPc (encoded text).length s) log c.machine ->
      log.length < (unicharToUtf8 chr).length ->
      c.pc = (encoded text).length + log.length -> c.effectiveLen = e ->
      c.str = encoded (text ++ chr :: behind) ->
        SteadyAt I text chr c ∧ RestoresAt I.Same (I.step c.view) c.machine

/-- This is so for the characters of a line from a position on. -/
def Plain (e pos : Nat) (line : List Gunichar) : Prop :=
  forall text chr, pos ≤ (encoded text).length -> text ++ [chr] <+: line ->
    PlainAt I s₀ e text chr

/-- The characters of a text are executed in the same way whatever has been
rubbed out behind them, and their undo tokens restore the state in front of
them. -/
def Deterministic (text : List Gunichar) : Prop :=
  forall front chr, front ++ [chr] <+: text ->
    PlainAt I s₀ (encoded (front ++ [chr])).length front chr

/-- The machine reaches a byte of the character behind a text. -/
structure Reaches (text : List Gunichar) (chr : Gunichar) (heads : Log σ)
    (s : σ) (log : Log σ) (t : σ) : Prop where
  executed : Executed I s₀ text heads s
  steps : Steps I (encoded (text ++ [chr])) (encoded text).length
    (I.setMacroPc (encoded text).length s) log t
  length_lt : log.length < (unicharToUtf8 chr).length

/-- The bytes of a line in front of a position do not fail. -/
def Succeeds (line : List Gunichar) (pos : Nat) : Prop :=
  forall text chr heads s log t, Reaches I s₀ text chr heads s log t ->
    text ++ [chr] <+: line -> (encoded text).length + log.length < pos ->
      exists u tokens,
        I.step (viewOf (encoded (text ++ [chr]))
          ((encoded text).length + log.length)) t = .ok () u tokens

variable {I s₀} {text behind rest line : List Gunichar} {heads log : Log σ}
  {s : σ}

/-- Commands which never look ahead. -/
theorem plainAt_of_steady (hsteady : forall c, Steady I c)
    (hrestores : forall view s, RestoresAt I.Same (I.step view) s) (e : Nat)
    (text : List Gunichar) (chr : Gunichar) : PlainAt I s₀ e text chr := by
  intro behind heads s log c hvalid _ _ hlt hpc _ hstr
  refine ⟨hsteady c text chr behind hvalid hstr ?_ ?_, hrestores _ _⟩
  · rw [hpc]
    exact Nat.le_add_right _ _
  · rw [hpc, encoded_snoc]
    exact Nat.add_lt_add_left hlt _

theorem Plain.front {e pos : Nat} {front : List Gunichar}
    (h : Plain I s₀ e pos line) (hfront : front <+: line) :
    Plain I s₀ e pos front :=
  fun text chr hpos h' => h text chr hpos (h'.trans hfront)

/-- From a later position on. -/
theorem Plain.later {e : Nat} {text' : List Gunichar}
    (h : Plain I s₀ e (encoded text).length line) (hlonger : text <+: text') :
    Plain I s₀ e (encoded text').length line := by
  intro front chr hle hfront
  apply h front chr (Nat.le_trans ?_ hle) hfront
  rcases hlonger with ⟨mid, rfl⟩
  rw [encoded_append, List.length_append]
  exact Nat.le_add_right _ _

theorem Running.reaches {chr : Gunichar} {c : Cmdline σ}
    (h : Running I s₀ text (chr :: behind) heads s log c) :
    Reaches I s₀ text chr heads s log c.machine where
  executed := h.back.executed
  steps := (h.steps chr behind rfl).2
  length_lt := (h.steps chr behind rfl).1

theorem Running.plain {chr : Gunichar} {c : Cmdline σ}
    (h : Running I s₀ text (chr :: behind) heads s log c)
    (hplain : PlainAt I s₀ c.effectiveLen text chr) :
    SteadyAt I text chr c ∧ RestoresAt I.Same (I.step c.view) c.machine :=
  hplain behind heads s log c h.valid h.reaches.executed h.reaches.steps
    h.reaches.length_lt h.pc rfl h.str

namespace Reaches

variable {chr : Gunichar} {t : σ}

/-- The state at a byte. -/
theorem unique {heads' log' : Log σ} {s' t' : σ}
    (h : Reaches I s₀ text chr heads s log t)
    (h' : Reaches I s₀ text chr heads' s' log' t')
    (hlength : log.length = log'.length) : t = t' := by
  rcases h.executed.unique h'.executed with ⟨rfl, rfl⟩
  exact (h.steps.unique h'.steps hlength).2

/-- A character that has been executed as a whole has not failed. -/
theorem step_of_executed {heads' : Log σ} {s' : σ}
    (h : Reaches I s₀ text chr heads s log t)
    (hline : Executed I s₀ line heads' s') (hbegins : text ++ [chr] <+: line) :
    exists u tokens,
      I.step (viewOf (encoded (text ++ [chr]))
        ((encoded text).length + log.length)) t = .ok () u tokens := by
  rcases hbegins with ⟨more, rfl⟩
  rcases hline.front with ⟨v, hv⟩
  rcases hv.last with ⟨front, w, back, hfront, hsteps, hback, _⟩
  rcases h.executed.unique hfront with ⟨rfl, rfl⟩
  rcases h.steps.next hsteps (hback ▸ h.length_lt) with ⟨u, tokens, hstep, _⟩
  exact ⟨u, tokens, hstep⟩

/-- Bytes in front of one that is reached. -/
theorem succeeds (h : Reaches I s₀ text chr heads s log t) :
    Succeeds I s₀ (text ++ [chr]) ((encoded text).length + log.length) := by
  intro front chr' heads' s' log' t' hreaches hline hlt
  rcases List.prefix_concat_iff.mp hline with heq | hshort
  · rcases List.append_inj' heq rfl with ⟨rfl, hchr⟩
    cases hchr
    rcases hreaches.executed.unique h.executed with ⟨rfl, rfl⟩
    rcases hreaches.steps.next h.steps (Nat.lt_of_add_lt_add_left hlt) with
      ⟨u, tokens, hstep, _⟩
    exact ⟨u, tokens, hstep⟩
  · exact hreaches.step_of_executed h.executed hshort

end Reaches

theorem executed_succeeds (h : Executed I s₀ line heads s) (pos : Nat) :
    Succeeds I s₀ line pos :=
  fun _ _ _ _ _ _ hreaches hline _ => hreaches.step_of_executed h hline

/-- Texts of such characters can be undone. -/
theorem Deterministic.restorable (h : Deterministic I s₀ text)
    (htext : ValidText text) : Restorable I s₀ text := by
  intro front chr hbegins log s log' t hfront hwhole u hu
  have hplain := h front chr hbegins
  rcases hwhole.last with ⟨log₁, s₁, back, hfront₁, hsteps, hlength, rfl⟩
  rcases hfront.unique hfront₁ with ⟨rfl, rfl⟩
  have hundo : forall back v, Steps I (encoded (front ++ [chr]))
      (encoded front).length (I.setMacroPc (encoded front).length s) back v ->
      back.length ≤ (unicharToUtf8 chr).length -> forall u, I.Same u v ->
        I.Same (unwindFrom 0 back u) s := by
    intro back v hsteps
    induction hsteps with
    | nil => exact fun _ u hu => hu.trans (same_setMacroPc _ _)
    | @step back v w tokens hsteps hstep ih =>
        intro hle u hu
        rw [List.length_append, List.length_singleton] at hle
        have hrestores : RestoresAt I.Same
            (I.step (viewOf (encoded (front ++ [chr]))
              ((encoded front).length + back.length))) v := (hplain [] log s back
          { machine := v
            undoHeads := []
            str := encoded (front ++ [chr])
            effectiveLen := (encoded (front ++ [chr])).length
            pc := (encoded front).length + back.length
            modifierEnabled := false }
          (fun x hx => htext x (hbegins.subset hx)) hfront hsteps
          (Nat.lt_of_succ_le hle) rfl rfl rfl).2
        unfold RestoresAt at hrestores
        rw [hstep] at hrestores
        rw [unwindFrom_last (Nat.zero_le _)]
        exact ih (Nat.le_of_lt (Nat.lt_of_succ_le hle)) _ (hrestores u hu)
  rw [<- hfront.length_eq, unwindFrom_append]
  exact hundo back t hsteps (Nat.le_of_eq hlength) u hu

/-- The command line behind a text that has been typed. -/
def typed (text : List Gunichar) (heads : Log σ) (s : σ) : Cmdline σ :=
  { machine := s
    undoHeads := heads
    str := encoded text
    effectiveLen := (encoded text).length
    pc := (encoded text).length
    modifierEnabled := false }

theorem typed_ready (h : Executed I s₀ text heads s)
    (hplain : Deterministic I s₀ text) :
    Ready I s₀ text [] heads s (typed text heads s) where
  valid := by
    rw [List.append_nil]
    exact h.valid
  str := by
    rw [List.append_nil]
    rfl
  effectiveLen := rfl
  logged := Nat.le_of_eq h.length_eq
  back :=
    { executed := h
      restorable := hplain.restorable h.valid
      tokens := fun _ _ => rfl
      undo := by
        intro u hu
        have hle : (typed text heads s).undoHeads.length ≤
            (encoded text).length := Nat.le_of_eq h.length_eq
        rw [unwindFrom_of_le hle]
        exact hu }

/-!
## Going on
-/

/-- What passes without an error leave as it is. -/
structure SameLine (l l' : Insertion σ) : Prop where
  str : l'.cmdline.str = l.cmdline.str
  effectiveLen : l'.cmdline.effectiveLen = l.cmdline.effectiveLen
  oldCmdline : l'.oldCmdline = l.oldCmdline
  replPc : l'.replPc = l.replPc

theorem SameLine.refl (l : Insertion σ) : SameLine l l := ⟨rfl, rfl, rfl, rfl⟩

theorem SameLine.trans (h : SameLine l l') (h' : SameLine l' l'') :
    SameLine l l'' where
  str := h'.str.trans h.str
  effectiveLen := h'.effectiveLen.trans h.effectiveLen
  oldCmdline := h'.oldCmdline.trans h.oldCmdline
  replPc := h'.replPc.trans h.replPc

namespace Running

variable {chr : Gunichar}

/-- A byte without an error. -/
theorem executes {c : Cmdline σ} {t : σ} {tokens : List (σ -> σ)}
    (h : Running I s₀ text (chr :: behind) heads s log c)
    (hplain : PlainAt I s₀ c.effectiveLen text chr)
    (hrun : I.step c.view c.machine = .ok () t tokens) :
    exists d text' behind' heads' s' log',
      onMachine (I.step c.view) c = .ok () d [] ∧
        d.str = c.str ∧ d.effectiveLen = c.effectiveLen ∧ d.pc = c.pc ∧
        Running I s₀ text' behind' heads' s' log' { d with pc := d.pc + 1 } ∧
        text' ++ behind' = text ++ chr :: behind ∧ text <+: text' := by
  rcases h.plain hplain with ⟨hsteady, hrestores⟩
  rcases onMachine_ok (Nat.le_succ_of_le h.logged) hrun with
    ⟨undoHeads, hpushed, hmachine⟩
  rcases h.byte hrun hrestores hsteady hpushed with
    ⟨text', behind', heads', s', log', hrunning, hsplit, hlonger⟩
  exact ⟨_, text', behind', heads', s', log', hmachine, rfl, rfl, rfl,
    hrunning, hsplit, hlonger⟩

/-- A pass without an error. -/
theorem pass_again
    (h : Running I s₀ text (chr :: behind) heads s log l.cmdline)
    (hplain : PlainAt I s₀ l.cmdline.effectiveLen text chr)
    (hok : exists t tokens,
      I.step (viewOf (encoded (text ++ [chr]))
        ((encoded text).length + log.length)) l.cmdline.machine =
          .ok () t tokens) :
    exists l' text' behind' heads' s' log', pass I l = .again l' ∧
      SameLine l l' ∧ l'.cmdline.pc = l.cmdline.pc + 1 ∧
      Running I s₀ text' behind' heads' s' log' l'.cmdline ∧
      text' ++ behind' = text ++ chr :: behind ∧ text <+: text' := by
  rcases hok with ⟨t, tokens, hstep⟩
  have hrun := (h.view_eq (h.plain hplain).1).trans hstep
  rcases h.executes hplain hrun with ⟨d, text', behind', heads', s', log',
    hmachine, hstr, hlength, hpc, hrunning, hsplit, hlonger⟩
  refine ⟨{ l with cmdline := { d with pc := d.pc + 1 } }, text', behind',
    heads', s', log', ?_, ?_, ?_, hrunning, hsplit, hlonger⟩
  · unfold Cmdline.pass
    rw [hmachine]
  · exact ⟨hstr, hlength, rfl, rfl⟩
  · exact congrArg (fun n => n + 1) hpc

/-- Where the machine is in a line. -/
theorem begins {more : List Gunichar} {c : Cmdline σ}
    (h : Running I s₀ text behind heads s log c)
    (hsplit : text ++ behind = line ++ more)
    (hlt : c.pc < (encoded line).length) :
    exists chr behind', behind = chr :: behind' ∧ text ++ [chr] <+: line := by
  have hline : line <+: text ++ behind := hsplit ▸ List.prefix_append line more
  have hfront : text <+: line :=
    begins_of_length_le (List.prefix_append text behind) hline
      (Nat.le_of_lt (Nat.lt_of_le_of_lt h.le_pc hlt))
  rcases hfront with ⟨mid, rfl⟩
  cases mid with
  | nil =>
      rw [List.append_nil] at hlt
      exact absurd h.le_pc (Nat.not_le.mpr hlt)
  | cons chr mid =>
      rw [List.append_assoc] at hsplit
      refine ⟨chr, mid ++ more, List.append_cancel_left hsplit, mid, ?_⟩
      rw [List.append_assoc, List.singleton_append]

/-- The machine gets to every position up to which there are no errors. -/
theorem goes {more : List Gunichar} {pos : Nat}
    (h : Running I s₀ text behind heads s log l.cmdline)
    (hplain : Plain I s₀ l.cmdline.effectiveLen (encoded text).length line)
    (hsucceeds : Succeeds I s₀ line pos)
    (hsplit : text ++ behind = line ++ more)
    (hpos : l.cmdline.pc + n ≤ pos) (hline : pos ≤ (encoded line).length)
    (heffective : l.cmdline.pc + n ≤ l.cmdline.effectiveLen) :
    exists l' text' behind' heads' s' log', Goes I n l l' ∧ SameLine l l' ∧
      l'.cmdline.pc = l.cmdline.pc + n ∧
      Running I s₀ text' behind' heads' s' log' l'.cmdline ∧
      text' ++ behind' = line ++ more ∧ text <+: text' := by
  induction n generalizing l text behind heads s log with
  | zero =>
      exact ⟨l, text, behind, heads, s, log, Goes.refl l, SameLine.refl l, rfl,
        h, hsplit, List.prefix_refl text⟩
  | succ n ih =>
      rcases h.begins hsplit (by omega) with ⟨chr, behind, rfl, hbegins⟩
      have hstep := hsucceeds text chr heads s log _ h.reaches hbegins
        (by rw [<- h.pc]; omega)
      rcases h.pass_again (hplain text chr (Nat.le_refl _) hbegins) hstep with
        ⟨l₁, text₁, behind₁, heads₁, s₁, log₁, hpass, hsame, hpc, hrunning,
          hsplit₁, hlonger⟩
      rw [<- hsame.effectiveLen] at hplain
      rcases ih hrunning (hplain.later hlonger) (hsplit₁.trans hsplit) (by omega)
          (by rw [hsame.effectiveLen]; omega) with
        ⟨l₂, text₂, behind₂, heads₂, s₂, log₂, hgoes, hsame₂, hpc₂, hrunning₂,
          hsplit₂, hlonger₂⟩
      refine ⟨l₂, text₂, behind₂, heads₂, s₂, log₂,
        Goes.pass (by omega) hpass hgoes, hsame.trans hsame₂, ?_, hrunning₂,
        hsplit₂, hlonger.trans hlonger₂⟩
      rw [hpc₂, hpc]
      omega

/-- The byte that is reached. -/
theorem at_goal {goal more : List Gunichar} {next : Gunichar}
    {heads' log' : Log σ} {s' t' : σ} {c : Cmdline σ}
    (h : Running I s₀ text behind heads s log c)
    (hgoal : Reaches I s₀ goal next heads' s' log' t')
    (hsplit : text ++ behind = goal ++ next :: more)
    (hpc : c.pc = (encoded goal).length + log'.length) :
    text = goal ∧ behind = next :: more ∧ log.length = log'.length ∧
      c.machine = t' := by
  have hlt : c.pc < (encoded (goal ++ [next])).length := by
    rw [encoded_snoc, hpc]
    exact Nat.add_lt_add_left hgoal.length_lt _
  have hfront : text <+: goal :=
    begins_of_lt (hsplit ▸ List.prefix_append text behind)
      (Nat.lt_of_le_of_lt h.le_pc hlt)
  rcases hfront with ⟨mid, rfl⟩
  rw [List.append_assoc] at hsplit
  have hbehind := List.append_cancel_left hsplit
  have hnil : mid = [] := by
    cases mid with
    | nil => rfl
    | cons chr mid =>
        subst hbehind
        have hbefore := h.pc_lt
        rw [hpc, encoded_snoc, encoded_append, encoded_cons,
          List.length_append, List.length_append] at hbefore
        omega
  subst hnil
  rw [List.append_nil] at hpc hgoal ⊢
  subst hbehind
  have hlength : log.length = log'.length :=
    Nat.add_left_cancel (h.pc.symm.trans hpc)
  exact ⟨rfl, rfl, hlength, h.reaches.unique hgoal hlength⟩

theorem machine_eq {c : Cmdline σ}
    (h : Running I s₀ text (chr :: behind) heads s [] c) :
    c.machine = I.setMacroPc (encoded text).length s :=
  h.reaches.unique ⟨h.back.executed, Steps.nil, h.reaches.length_lt⟩ rfl

end Running

end Cmdline
end SciTECO
