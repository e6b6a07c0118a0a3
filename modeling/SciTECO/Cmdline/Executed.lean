import Mathlib.Data.List.Induction
import SciTECO.Characters
import SciTECO.Cmdline.Insert
import SciTECO.Lib.Restore

/-!
# Lines that have been executed

What it means for a machine to have executed a line, and that an undo log leads
back to the beginning of a line.
-/

namespace SciTECO

open PositionLog Undoable

namespace Interpreter

variable {σ : Type} (I : Interpreter σ)

/-!
## Program counters
-/

/-- States which differ at most in the program counter of the machine.  It is
set anew by every insertion. -/
def Same (s t : σ) : Prop := I.setMacroPc 0 s = I.setMacroPc 0 t

variable {I}

theorem Same.refl (s : σ) : I.Same s s := rfl

theorem Same.symm {s t : σ} (h : I.Same s t) : I.Same t s :=
  show I.setMacroPc 0 t = I.setMacroPc 0 s from Eq.symm h

theorem Same.trans {s t u : σ} (h : I.Same s t) (h' : I.Same t u) :
    I.Same s u :=
  show I.setMacroPc 0 s = I.setMacroPc 0 u from Eq.trans h h'

theorem same_setMacroPc (n : Nat) (s : σ) : I.Same (I.setMacroPc n s) s :=
  I.setMacroPc_setMacroPc 0 n s

theorem Same.setMacroPc {s t : σ} (h : I.Same s t) (n : Nat) :
    I.setMacroPc n s = I.setMacroPc n t := by
  rw [<- I.setMacroPc_setMacroPc n 0 s, <- I.setMacroPc_setMacroPc n 0 t]
  exact congrArg (I.setMacroPc n) h

variable (I)

/-!
## Executing a line
-/

/-- What commands see of a line. -/
def viewOf (line : Bytes) (pc : Nat) : Parser.CmdlineView :=
  { str := line, effectiveLen := line.length, pc := pc }

/-- The machine is stepped over the bytes of a line from a position on.  The log
has the tokens of every byte. -/
inductive Steps (line : Bytes) (pc : Nat) (s : σ) : Log σ -> σ -> Prop where
  | nil : Steps line pc s [] s
  | step {log : Log σ} {t u : σ} {tokens : List (σ -> σ)} :
      Steps line pc s log t ->
      I.step (viewOf line (pc + log.length)) t = .ok () u tokens ->
      Steps line pc s (log ++ [tokens]) u

/-- A text is executed character by character, as it is typed. -/
inductive Executed (s₀ : σ) : List Gunichar -> Log σ -> σ -> Prop where
  | nil : Executed s₀ [] [] s₀
  | char {text : List Gunichar} {log log' : Log σ} {s t : σ} {chr : Gunichar} :
      Executed s₀ text log s -> unicharValidate chr = true ->
      Steps I (encoded (text ++ [chr])) (encoded text).length
        (I.setMacroPc (encoded text).length s) log' t ->
      log'.length = (unicharToUtf8 chr).length ->
      Executed s₀ (text ++ [chr]) (log ++ log') t

variable {I}

theorem Steps.unique {line : Bytes} {pc : Nat} {s t t' : σ} {log log' : Log σ}
    (h : Steps I line pc s log t) (h' : Steps I line pc s log' t')
    (hlength : log.length = log'.length) : log = log' ∧ t = t' := by
  induction h generalizing log' t' with
  | nil =>
      cases h' with
      | nil => exact ⟨rfl, rfl⟩
      | step _ _ =>
          rw [List.length_append] at hlength
          cases hlength
  | step hfront hstep ih =>
      cases h' with
      | nil =>
          rw [List.length_append] at hlength
          cases hlength
      | step hfront' hstep' =>
          rw [List.length_append, List.length_append, List.length_singleton,
            List.length_singleton] at hlength
          rcases ih hfront' (Nat.succ.inj hlength) with ⟨rfl, rfl⟩
          rw [hstep] at hstep'
          cases hstep'
          exact ⟨rfl, rfl⟩

/-- A shorter run on the same bytes. -/
theorem Steps.take {line : Bytes} {pc : Nat} {s t : σ} {log : Log σ}
    (h : Steps I line pc s log t) {n : Nat} (hn : n ≤ log.length) :
    exists u, Steps I line pc s (log.take n) u := by
  induction h with
  | nil => exact ⟨s, by rw [List.take_nil]; exact Steps.nil⟩
  | @step log t u tokens hfront hstep ih =>
      rw [List.length_append, List.length_singleton] at hn
      rcases Nat.lt_or_eq_of_le hn with hlt | heq
      · rcases ih (Nat.le_of_lt_succ hlt) with ⟨v, hv⟩
        refine ⟨v, ?_⟩
        rw [List.take_append_of_le_length (Nat.le_of_lt_succ hlt)]
        exact hv
      · refine ⟨u, ?_⟩
        rw [heq, List.take_of_length_le
          (by rw [List.length_append, List.length_singleton])]
        exact Steps.step hfront hstep

/-- The next byte of a run that goes on. -/
theorem Steps.next {line : Bytes} {pc : Nat} {s t t' : σ} {log log' : Log σ}
    (h : Steps I line pc s log t) (h' : Steps I line pc s log' t')
    (hlt : log.length < log'.length) :
    exists u tokens,
      I.step (viewOf line (pc + log.length)) t = .ok () u tokens ∧
        log' = log ++ tokens :: log'.drop (log.length + 1) := by
  induction h' with
  | nil => cases hlt
  | @step log' t' u tokens hfront hstep ih =>
      rw [List.length_append, List.length_singleton] at hlt
      rcases Nat.lt_or_eq_of_le (Nat.le_of_lt_succ hlt) with hless | heq
      · rcases ih hless with ⟨v, tokens', hv, hlog⟩
        refine ⟨v, tokens', hv, ?_⟩
        rw [List.drop_append_of_le_length hless]
        conv => lhs; rw [hlog]
        rw [List.append_assoc]
        rfl
      · rcases h.unique hfront heq with ⟨rfl, rfl⟩
        refine ⟨u, tokens, hstep, ?_⟩
        rw [List.drop_of_length_le
          (by rw [List.length_append, List.length_singleton])]

namespace Executed

variable {s₀ : σ} {text : List Gunichar} {log : Log σ} {s : σ}

theorem valid (h : Executed I s₀ text log s) : ValidText text := by
  induction h with
  | nil => exact fun _ hchr => absurd hchr List.not_mem_nil
  | char _ hvalid _ _ ih =>
      apply ih.append
      intro chr hchr
      rw [List.mem_singleton.mp hchr]
      exact hvalid

theorem length_eq (h : Executed I s₀ text log s) :
    log.length = (encoded text).length := by
  induction h with
  | nil => rfl
  | char _ _ _ hlength ih =>
      rw [encoded_append, List.length_append, List.length_append, ih, hlength,
        encoded_cons, encoded_nil, List.append_nil]

/-- The last character of a text. -/
theorem last {chr : Gunichar} (h : Executed I s₀ (text ++ [chr]) log s) :
    exists front t back, Executed I s₀ text front t ∧
      Steps I (encoded (text ++ [chr])) (encoded text).length
        (I.setMacroPc (encoded text).length t) back s ∧
      back.length = (unicharToUtf8 chr).length ∧ log = front ++ back := by
  obtain ⟨whole, hwhole⟩ : exists l, l = text ++ [chr] := ⟨_, rfl⟩
  rw [<- hwhole] at h
  cases h with
  | nil => exact absurd hwhole (by simp)
  | char hfront _ hsteps hlength =>
      rcases List.append_inj' hwhole rfl with ⟨rfl, hchr⟩
      cases hchr
      exact ⟨_, _, _, hfront, hsteps, hlength, rfl⟩

/-- Execution is deterministic. -/
theorem unique {log' : Log σ} {s' : σ} (h : Executed I s₀ text log s)
    (h' : Executed I s₀ text log' s') : log = log' ∧ s = s' := by
  induction h generalizing log' s' with
  | nil =>
      generalize hnil : ([] : List Gunichar) = text at h'
      cases h' with
      | nil => exact ⟨rfl, rfl⟩
      | char => exact absurd hnil (by simp)
  | char hfront hvalid hsteps hlength ih =>
      rcases h'.last with ⟨front, t, back, hfront', hsteps', hlength', rfl⟩
      rcases ih hfront' with ⟨rfl, rfl⟩
      rcases hsteps.unique hsteps' (hlength.trans hlength'.symm) with
        ⟨rfl, rfl⟩
      exact ⟨rfl, rfl⟩

/-- The beginning of a text has been executed in front of the rest. -/
theorem front {back : List Gunichar}
    (h : Executed I s₀ (text ++ back) log s) :
    exists t, Executed I s₀ text (log.take (encoded text).length) t := by
  induction back using List.reverseRecOn generalizing log s with
  | nil =>
      rw [List.append_nil] at h
      refine ⟨s, ?_⟩
      rw [<- h.length_eq, List.take_length]
      exact h
  | append_singleton back chr ih =>
      rw [<- List.append_assoc] at h
      rcases h.last with ⟨front, t, last, hfront, _, _, rfl⟩
      rcases ih hfront with ⟨u, hu⟩
      refine ⟨u, ?_⟩
      rw [List.take_append_of_le_length]
      · exact hu
      · rw [hfront.length_eq, encoded_append, List.length_append]
        exact Nat.le_add_right _ _

end Executed

/-!
## Undoing a line
-/

/-- The undo tokens of every character of a text restore the state in front of
it. -/
def Restorable (I : Interpreter σ) (s₀ : σ) (text : List Gunichar) : Prop :=
  forall front chr, front ++ [chr] <+: text ->
    forall log s log' t, Executed I s₀ front log s ->
      Executed I s₀ (front ++ [chr]) log' t -> forall u, I.Same u t ->
        I.Same (unwindFrom (encoded front).length log' u) s

variable {s₀ : σ}

theorem Restorable.nil : Restorable I s₀ [] := by
  intro front chr h
  have hnil := List.prefix_nil.mp h
  exact absurd hnil (by simp)

theorem Restorable.front {front text : List Gunichar}
    (h : Restorable I s₀ text) (hfront : front <+: text) :
    Restorable I s₀ front :=
  fun front' chr h' => h front' chr (h'.trans hfront)

/-- A text is taken back to its beginning character by character. -/
theorem Restorable.undo {text back : List Gunichar}
    (h : Restorable I s₀ (text ++ back)) {log log' : Log σ} {s t : σ}
    (hfront : Executed I s₀ text log s)
    (hwhole : Executed I s₀ (text ++ back) log' t) {u : σ} (hu : I.Same u t) :
    I.Same (unwindFrom (encoded text).length log' u) s := by
  induction back using List.reverseRecOn generalizing log' t u with
  | nil =>
      rw [List.append_nil] at hwhole
      rcases hfront.unique hwhole with ⟨rfl, rfl⟩
      rw [unwindFrom_of_le (Nat.le_of_eq hfront.length_eq)]
      exact hu
  | append_singleton back chr ih =>
      rw [<- List.append_assoc] at h hwhole
      rcases hwhole.last with ⟨log₁, t₁, last, hmid, _, _, rfl⟩
      have hlast := h _ chr (List.prefix_refl _) _ _ _ _ hmid hwhole u hu
      have hrest := ih (h.front (List.prefix_append _ _)) hmid hlast
      have hle : (encoded text).length ≤ (encoded (text ++ back)).length := by
        rw [encoded_append, List.length_append]
        exact Nat.le_add_right _ _
      rw [<- unwindFrom_take hle (log₁ ++ last), <- hmid.length_eq,
        List.take_left, hmid.length_eq]
      exact hrest

/-- Another character which can be undone. -/
theorem Restorable.char {text : List Gunichar} {chr : Gunichar}
    {log log' : Log σ} {s t : σ} (h : Restorable I s₀ text)
    (hfront : Executed I s₀ text log s)
    (hwhole : Executed I s₀ (text ++ [chr]) (log ++ log') t)
    (hundo : forall u, I.Same u t -> I.Same (unwindFrom 0 log' u) s) :
    Restorable I s₀ (text ++ [chr]) := by
  intro front chr' hbegins log₁ s₁ log₂ t₁ hfront₁ hwhole₁ u hu
  rcases List.prefix_concat_iff.mp hbegins with heq | hshort
  · rcases List.append_inj' heq rfl with ⟨rfl, hchr⟩
    cases hchr
    rcases hfront.unique hfront₁ with ⟨rfl, rfl⟩
    rcases hwhole.unique hwhole₁ with ⟨rfl, rfl⟩
    rw [<- hfront.length_eq, unwindFrom_append]
    exact hundo u hu
  · exact h front chr' hshort log₁ s₁ log₂ t₁ hfront₁ hwhole₁ u hu

end Interpreter

/-!
## Going back
-/

namespace Cmdline

open Interpreter

variable {σ : Type} (I : Interpreter σ) (s₀ : σ)

/-- Popping undo tokens leads back to a text.  The tokens in front are those of
its characters. -/
structure BackTo (text : List Gunichar) (c : Cmdline σ) (log : Log σ) (s : σ) :
    Prop where
  executed : Executed I s₀ text log s
  restorable : Restorable I s₀ text
  tokens : forall i, i < (encoded text).length ->
    tokensAt c.undoHeads i = tokensAt log i
  undo : forall u, I.Same u c.machine ->
    I.Same (unwindFrom (encoded text).length c.undoHeads u) s

variable {I s₀} {text : List Gunichar} {c : Cmdline σ} {log : Log σ} {s : σ}

/-- Commands which can be undone lead away from a text and back. -/
theorem BackTo.pushed {tokens : List (σ -> σ)} {heads : Log σ} {t : σ}
    (h : BackTo I s₀ text c log s) (hpc : (encoded text).length ≤ c.pc)
    (hrestores : forall u, I.Same u t -> I.Same (unwind tokens u) c.machine)
    (hpushed : Pushed c.pc tokens c.undoHeads heads) :
    BackTo I s₀ text { c with machine := t, undoHeads := heads } log s where
  executed := h.executed
  restorable := h.restorable
  tokens := by
    intro i hi
    rw [hpushed.before (Nat.lt_of_lt_of_le hi hpc)]
    exact h.tokens i hi
  undo := by
    intro u hu
    rw [hpushed.unwindFrom_eq _ _ hpc]
    exact h.undo _ (hrestores u hu)

/-- Nothing else is looked at. -/
theorem BackTo.congr {d : Cmdline σ} (h : BackTo I s₀ text c log s)
    (hheads : d.undoHeads = c.undoHeads)
    (hmachine : I.Same d.machine c.machine) : BackTo I s₀ text d log s where
  executed := h.executed
  restorable := h.restorable
  tokens := by
    rw [hheads]
    exact h.tokens
  undo := by
    intro u hu
    rw [hheads]
    exact h.undo u (hu.trans hmachine)

/-- There is nothing to be undone behind the text. -/
theorem BackTo.machine (h : BackTo I s₀ text c log s)
    (hlog : c.undoHeads.length ≤ (encoded text).length) :
    I.Same c.machine s := by
  have hsame := h.undo c.machine (Same.refl _)
  rw [unwindFrom_of_le hlog] at hsame
  exact hsame

theorem BackTo.tokensAt_eq (h : BackTo I s₀ text c log s)
    (hlog : c.undoHeads.length ≤ (encoded text).length) (i : Nat) :
    tokensAt c.undoHeads i = tokensAt log i := by
  by_cases hi : i < (encoded text).length
  · exact h.tokens i hi
  · have hle := Nat.le_of_not_lt hi
    rw [tokensAt_of_le (Nat.le_trans hlog hle), tokensAt_of_le
      (Nat.le_trans (Nat.le_of_eq h.executed.length_eq) hle)]

/-- Popping tokens leads to all shorter texts. -/
theorem BackTo.undoPop {front : List Gunichar}
    (h : BackTo I s₀ text c log s) (hfront : front <+: text) :
    exists log' t,
      BackTo I s₀ front (c.undoPop (encoded front).length) log' t := by
  rcases hfront with ⟨back, rfl⟩
  rcases h.executed.front with ⟨t, ht⟩
  have hle : (encoded front).length ≤ (encoded (front ++ back)).length := by
    rw [encoded_append, List.length_append]
    exact Nat.le_add_right _ _
  refine ⟨_, t, ht, h.restorable.front (List.prefix_append _ _), ?_, ?_⟩
  · intro i hi
    change tokensAt (c.undoHeads.take _) i = _
    rw [tokensAt_take, tokensAt_take, if_pos hi, if_pos hi]
    exact h.tokens i (Nat.lt_of_lt_of_le hi hle)
  · -- Tokens are unwound to the longer text, and from there to the shorter one.
    intro u hu
    have hheads : unwindFrom (encoded front).length c.undoHeads c.machine =
        unwindFrom (encoded front).length log
          (unwindFrom (encoded (front ++ back)).length c.undoHeads
            c.machine) := by
      rw [<- unwindFrom_take hle]
      apply unwindFrom_congr
      intro i
      rw [tokensAt_take]
      split
      case isTrue hi => exact h.tokens i hi
      case isFalse hi =>
          rw [tokensAt_of_le]
          rw [h.executed.length_eq]
          exact Nat.le_of_not_lt hi
    have hundo := h.restorable.undo ht h.executed
      (h.undo c.machine (Same.refl _))
    rw [<- hheads] at hundo
    have hempty : (c.undoPop (encoded front).length).undoHeads.length ≤
        (encoded front).length := by
      change (c.undoHeads.take _).length ≤ _
      rw [List.length_take]
      exact Nat.min_le_left _ _
    rw [unwindFrom_of_le hempty]
    exact hu.trans hundo

end Cmdline
end SciTECO
