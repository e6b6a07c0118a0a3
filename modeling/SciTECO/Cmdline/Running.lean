import SciTECO.Cmdline.Executed
import SciTECO.Parser.FileCoord

/-!
# The loop over the command line

Every pass of the loop in `teco_cmdline_insert()` leaves the machine in the
middle of executing the command line, with undo tokens that lead back.  This
depends on what commands do, and on where a command line is exchanged.
-/

namespace SciTECO
namespace Cmdline

open PositionLog Undoable Interpreter
open SciTECO.Parser (IsBoundary)

variable {σ : Type}

/-!
## Commands
-/

section

variable {α : Type} {c : Cmdline σ} {m : Exec σ α} {a : α} {e : TecoError}
  {t : σ} {tokens : List (σ -> σ)}

/-- The assertion holds unless there are tokens of later positions. -/
theorem onMachine_ok (hlog : c.undoHeads.length ≤ c.pc + 1)
    (hrun : m c.machine = .ok a t tokens) :
    exists heads, Pushed c.pc tokens c.undoHeads heads ∧
      onMachine m c = .ok a { c with machine := t, undoHeads := heads } [] := by
  rcases pushAll_spec hlog tokens with ⟨heads, hpush, hpushed⟩
  refine ⟨heads, hpushed, ?_⟩
  unfold onMachine
  rw [hrun]
  dsimp only
  rw [hpush]

theorem onMachine_error (hlog : c.undoHeads.length ≤ c.pc + 1)
    (hrun : m c.machine = .error e t tokens) :
    exists heads, Pushed c.pc tokens c.undoHeads heads ∧
      onMachine m c =
        .error e { c with machine := t, undoHeads := heads } [] := by
  rcases pushAll_spec hlog tokens with ⟨heads, hpush, hpushed⟩
  refine ⟨heads, hpushed, ?_⟩
  unfold onMachine
  rw [hrun]
  dsimp only
  rw [hpush]

/-- What a command can do to the command line. -/
theorem onMachine_eq_ok {d : Cmdline σ}
    {tokens' : List (Cmdline σ -> Cmdline σ)}
    (h : onMachine m c = .ok a d tokens') :
    exists t tokens heads, m c.machine = .ok a t tokens ∧
      d = { c with machine := t, undoHeads := heads } := by
  unfold onMachine at h
  cases hrun : m c.machine with
  | ok b t tokens =>
      rw [hrun] at h
      dsimp only at h
      split at h
      case h_1 =>
          cases h
          exact ⟨t, tokens, _, rfl, rfl⟩
      case h_2 => cases h
  | error e t tokens =>
      rw [hrun] at h
      dsimp only at h
      split at h
      case h_1 => cases h
      case h_2 => cases h
  | fault cause =>
      rw [hrun] at h
      cases h

theorem onMachine_eq_error {d : Cmdline σ}
    {tokens' : List (Cmdline σ -> Cmdline σ)}
    (h : onMachine m c = .error e d tokens') :
    exists t tokens heads, m c.machine = .error e t tokens ∧
      d = { c with machine := t, undoHeads := heads } := by
  unfold onMachine at h
  cases hrun : m c.machine with
  | ok b t tokens =>
      rw [hrun] at h
      dsimp only at h
      split at h
      case h_1 => cases h
      case h_2 => cases h
  | error e' t tokens =>
      rw [hrun] at h
      dsimp only at h
      split at h
      case h_1 =>
          cases h
          exact ⟨t, tokens, _, rfl, rfl⟩
      case h_2 => cases h
  | fault cause =>
      rw [hrun] at h
      cases h

theorem onMachine_fault {cause : Fault} (hrun : m c.machine = .fault cause) :
    onMachine m c = .fault (CmdlineFault.machine cause) := by
  unfold onMachine
  rw [hrun]

end

/-!
## Conditions
-/

variable (I : Interpreter σ) (s₀ : σ)

/-- A character is executed as if it were the last one, and the program counter
of the machine is behind it afterwards. -/
def SteadyAt (text : List Gunichar) (chr : Gunichar) (c : Cmdline σ) : Prop :=
  I.step c.view c.machine =
      I.step (viewOf (encoded (text ++ [chr])) c.pc) c.machine ∧
    (c.pc + 1 = (encoded (text ++ [chr])).length -> forall t tokens,
      I.step c.view c.machine = .ok () t tokens ->
        I.setMacroPc (c.pc + 1) t = t)

/-- The character at the program counter does not depend on what stands behind
it. -/
def Steady (c : Cmdline σ) : Prop :=
  forall text chr behind, ValidText (text ++ chr :: behind) ->
    c.str = encoded (text ++ chr :: behind) ->
    (encoded text).length ≤ c.pc ->
    c.pc < (encoded (text ++ [chr])).length -> SteadyAt I text chr c

/-- The first difference of two command lines is between characters. -/
structure Differ (old new : Bytes) : Prop where
  inOld : IsBoundary old (Completion.stringDiff old new)
  inNew : IsBoundary new (Completion.stringDiff old new)

/-- Nor is it behind the character that is executed. -/
structure SafeExchange (c : Cmdline σ) (new : Bytes) : Prop
    extends Differ c.str new where
  pc : Completion.stringDiff c.str new ≤ c.pc

/-- The branches that go wrong are not taken by a pass of the loop, and the
undo tokens of the commands are right. -/
structure SafePass (l : Insertion σ) : Prop where
  restores : RestoresAt I.Same (I.step l.cmdline.view) l.cmdline.machine
  steady : Steady I l.cmdline
  exchange : forall e c,
    onMachine (I.step l.cmdline.view) l.cmdline = .error e c [] ->
    e.code = ErrorCode.cmdline ->
      RestoresAt I.Same I.getReplacement c.machine ∧
        forall new d, onMachine I.getReplacement c = .ok new d [] ->
          SafeExchange d new
  replay : forall e c,
    onMachine (I.step l.cmdline.view) l.cmdline = .error e c [] ->
    Ordinary e -> l.oldCmdline ≠ [] ->
      IsBoundary l.oldCmdline (c.effectiveLen - 1)

/-- All passes of the loop are like this. -/
def Along (P : Insertion σ -> Prop) : Nat -> Insertion σ -> Prop
  | 0, _ => True
  | fuel + 1, l =>
      l.cmdline.pc < l.cmdline.effectiveLen ->
        P l ∧ forall l', pass I l = .again l' -> Along P fuel l'

/-!
## Invariants
-/

/-- The machine is executing what stands behind `text`.  The log has the tokens
of the bytes which have been executed of the first character. -/
structure Running (text behind : List Gunichar) (heads : Log σ) (s : σ)
    (log : Log σ) (c : Cmdline σ) : Prop where
  valid : ValidText (text ++ behind)
  str : c.str = encoded (text ++ behind)
  pc : c.pc = (encoded text).length + log.length
  logged : c.undoHeads.length ≤ c.pc
  back : BackTo I s₀ text c heads s
  tokens : forall i, i < log.length ->
    tokensAt c.undoHeads ((encoded text).length + i) = tokensAt log i
  undo : forall u, I.Same u c.machine -> I.Same (unwindFrom 0 log u) s
  steps : forall chr behind', behind = chr :: behind' ->
    log.length < (unicharToUtf8 chr).length ∧
      Steps I (encoded (text ++ [chr])) (encoded text).length
        (I.setMacroPc (encoded text).length s) log c.machine
  finished : behind = [] -> log = []

/-- The effective command line ends between characters, and is not left. -/
structure Within (c : Cmdline σ) : Prop where
  boundary : IsBoundary c.str c.effectiveLen
  pc_le : c.pc ≤ c.effectiveLen

/-- The machine has executed the effective command line. -/
structure Ready (text rest : List Gunichar) (heads : Log σ) (s : σ)
    (c : Cmdline σ) : Prop where
  valid : ValidText (text ++ rest)
  str : c.str = encoded (text ++ rest)
  effectiveLen : c.effectiveLen = (encoded text).length
  logged : c.undoHeads.length ≤ c.effectiveLen
  back : BackTo I s₀ text c heads s

/-- A character behind the text has failed. -/
structure Stopped (text rest : List Gunichar) (heads : Log σ) (s : σ)
    (c : Cmdline σ) : Prop where
  valid : ValidText (text ++ rest)
  str : c.str = encoded (text ++ rest)
  behind : (encoded text).length ≤ c.pc
  within : forall front, front <+: text ++ rest ->
    (encoded front).length ≤ c.pc -> front <+: text
  logged : c.undoHeads.length ≤ c.pc + 1
  back : BackTo I s₀ text c heads s

/-- The previous command line begins with what is not replayed. -/
def Replays (text : List Gunichar) (l : Insertion σ) : Prop :=
  l.oldCmdline ≠ [] -> exists front behind, ValidText (front ++ behind) ∧
    l.oldCmdline = encoded (front ++ behind) ∧
    l.replPc = (encoded front).length ∧ front <+: text

variable {I s₀} {text behind rest : List Gunichar} {heads log : Log σ} {s : σ}
  {c : Cmdline σ}

/-- Texts are those of their strings. -/
theorem encoded_inj {a b : List Gunichar} (ha : ValidText a) (hb : ValidText b)
    (h : encoded a = encoded b) : a = b := by
  rw [<- characters_encoded ha, h, characters_encoded hb]

theorem encoded_snoc (text : List Gunichar) (chr : Gunichar) :
    (encoded (text ++ [chr])).length =
      (encoded text).length + (unicharToUtf8 chr).length := by
  rw [encoded_append, List.length_append, encoded_cons, encoded_nil,
    List.append_nil]

/-!
## A byte
-/

namespace Running

/-- A character is about to be executed. -/
theorem begin {d : Cmdline σ} (hback : BackTo I s₀ text c heads s)
    (hlog : c.undoHeads.length ≤ (encoded text).length)
    (hvalid : ValidText (text ++ behind))
    (hstr : d.str = encoded (text ++ behind))
    (hpc : d.pc = (encoded text).length)
    (hheads : d.undoHeads = c.undoHeads)
    (hmachine : d.machine = I.setMacroPc (encoded text).length c.machine) :
    Running I s₀ text behind heads s [] d where
  valid := hvalid
  str := hstr
  pc := hpc
  logged := by
    rw [hheads, hpc]
    exact hlog
  back := hback.congr hheads (by rw [hmachine]; exact same_setMacroPc _ _)
  tokens := fun i hi => absurd hi (Nat.not_lt_zero i)
  undo := by
    intro u hu
    rw [hmachine] at hu
    exact hu.trans ((same_setMacroPc _ _).trans (hback.machine hlog))
  steps := by
    intro chr behind' _
    refine ⟨List.length_pos_iff.mpr (unicharToUtf8_ne_nil chr), ?_⟩
    rw [hmachine, (hback.machine hlog).setMacroPc]
    exact Steps.nil
  finished := fun _ => rfl

theorem pc_lt {chr : Gunichar}
    (h : Running I s₀ text (chr :: behind) heads s log c) :
    c.pc < (encoded (text ++ [chr])).length := by
  rw [encoded_snoc, h.pc]
  exact Nat.add_lt_add_left (h.steps chr behind rfl).1 _

theorem le_pc (h : Running I s₀ text behind heads s log c) :
    (encoded text).length ≤ c.pc := by
  rw [h.pc]
  exact Nat.le_add_right _ _

/-- The character which is executed. -/
theorem steadyAt {chr : Gunichar}
    (h : Running I s₀ text (chr :: behind) heads s log c)
    (hsteady : Steady I c) : SteadyAt I text chr c :=
  hsteady text chr behind h.valid h.str h.le_pc h.pc_lt

/-- What commands see. -/
theorem view_eq {chr : Gunichar}
    (h : Running I s₀ text (chr :: behind) heads s log c)
    (hsteady : SteadyAt I text chr c) :
    I.step c.view c.machine =
      I.step (viewOf (encoded (text ++ [chr]))
        ((encoded text).length + log.length)) c.machine := by
  rw [<- h.pc]
  exact hsteady.1

/-- A byte has been executed. -/
theorem byte {chr : Gunichar} {t : σ} {tokens : List (σ -> σ)}
    {undoHeads : Log σ}
    (h : Running I s₀ text (chr :: behind) heads s log c)
    (hstep : I.step c.view c.machine = .ok () t tokens)
    (hrestores : RestoresAt I.Same (I.step c.view) c.machine)
    (hsteady : SteadyAt I text chr c)
    (hpushed : Pushed c.pc tokens c.undoHeads undoHeads) :
    exists text' behind' heads' s' log',
      Running I s₀ text' behind' heads' s' log'
        { c with machine := t, undoHeads := undoHeads, pc := c.pc + 1 } ∧
        text' ++ behind' = text ++ chr :: behind ∧ text <+: text' := by
  have hsteps := h.steps chr behind rfl
  have hnext : Steps I (encoded (text ++ [chr])) (encoded text).length
      (I.setMacroPc (encoded text).length s) (log ++ [tokens]) t :=
    Steps.step hsteps.2 ((h.view_eq hsteady).symm.trans hstep)
  have hlength : (log ++ [tokens]).length = log.length + 1 := by
    rw [List.length_append, List.length_singleton]
  have hrestore : forall u, I.Same u t ->
      I.Same (unwind tokens u) c.machine := by
    unfold RestoresAt at hrestores
    rw [hstep] at hrestores
    exact hrestores
  have hback := h.back.pushed h.le_pc hrestore hpushed
  have hundo : forall u, I.Same u t ->
      I.Same (unwindFrom 0 (log ++ [tokens]) u) s := by
    intro u hu
    rw [unwindFrom_last (Nat.zero_le _)]
    exact h.undo _ (hrestore u hu)
  have htokens : forall i, i < (log ++ [tokens]).length ->
      tokensAt undoHeads ((encoded text).length + i) =
        tokensAt (log ++ [tokens]) i := by
    intro i hi
    rw [hlength] at hi
    rcases Nat.lt_or_eq_of_le (Nat.le_of_lt_succ hi) with hlt | rfl
    · rw [hpushed.before (by rw [h.pc]; exact Nat.add_lt_add_left hlt _),
        tokensAt_append_left hlt]
      exact h.tokens i hlt
    · rw [<- h.pc, hpushed.first h.logged, tokensAt_append,
        if_neg (Nat.lt_irrefl _), Nat.sub_self]
      rfl
  rcases Nat.lt_or_eq_of_le (Nat.succ_le_of_lt hsteps.1) with hless | hall
  · -- There are more bytes of the character.
    refine ⟨text, chr :: behind, heads, s, log ++ [tokens], ?_, rfl,
      List.prefix_refl _⟩
    exact
      { valid := h.valid
        str := h.str
        pc := by
          rw [hlength, <- Nat.add_assoc, <- h.pc]
        logged := hpushed.length_le
        back := hback.congr rfl (Same.refl _)
        tokens := htokens
        undo := hundo
        steps := by
          intro chr' behind' heq
          cases heq
          exact ⟨hlength ▸ hless, hnext⟩
        finished := fun hnil => absurd hnil (List.cons_ne_nil _ _) }
  · -- The character has been executed.
    have hend : (encoded (text ++ [chr])).length = c.pc + 1 := by
      rw [encoded_snoc, <- hall, h.pc]
      rfl
    have hmacro := hsteady.2 hend.symm t tokens hstep
    have hsplit : (text ++ [chr]) ++ behind = text ++ chr :: behind := by
      rw [List.append_assoc, List.singleton_append]
    have hexecuted : Executed I s₀ (text ++ [chr])
        (heads ++ (log ++ [tokens])) t :=
      Executed.char h.back.executed (h.valid chr (by simp)) hnext
        (hlength.trans hall)
    have hrestorable : Restorable I s₀ (text ++ [chr]) :=
      h.back.restorable.char h.back.executed hexecuted hundo
    have hafter : BackTo I s₀ (text ++ [chr])
        { c with machine := t, undoHeads := undoHeads }
        (heads ++ (log ++ [tokens])) t :=
      { executed := hexecuted
        restorable := hrestorable
        tokens := by
          intro i hi
          by_cases hfront : i < (encoded text).length
          · rw [tokensAt_append_left
              (by rw [h.back.executed.length_eq]; exact hfront)]
            exact hback.tokens i hfront
          · have hle := Nat.le_of_not_lt hfront
            rw [tokensAt_append, h.back.executed.length_eq, if_neg hfront]
            have hinside := htokens (i - (encoded text).length) (by
              rw [hend, h.pc] at hi
              rw [hlength]
              omega)
            rw [Nat.add_sub_cancel' hle] at hinside
            exact hinside
        undo := by
          intro u hu
          rw [unwindFrom_of_le (by rw [hend]; exact hpushed.length_le)]
          exact hu }
    refine ⟨text ++ [chr], behind, heads ++ (log ++ [tokens]), t, [], ?_,
      hsplit, List.prefix_append _ _⟩
    apply Running.begin hafter
    · rw [hend]
      exact hpushed.length_le
    · rw [hsplit]
      exact h.valid
    · rw [hsplit]
      exact h.str
    · exact hend.symm
    · rfl
    · rw [hend]
      exact hmacro.symm

/-- A byte has failed. -/
theorem stopped {chr : Gunichar} {t : σ} {tokens : List (σ -> σ)}
    {undoHeads : Log σ}
    (h : Running I s₀ text (chr :: behind) heads s log c)
    (hrestore : forall u, I.Same u t -> I.Same (unwind tokens u) c.machine)
    (hpushed : Pushed c.pc tokens c.undoHeads undoHeads) :
    Stopped I s₀ text (chr :: behind) heads s
      { c with machine := t, undoHeads := undoHeads } where
  valid := h.valid
  str := h.str
  behind := h.le_pc
  within := by
    intro front hfront hle
    exact begins_of_lt hfront (Nat.lt_of_le_of_lt hle h.pc_lt)
  logged := hpushed.length_le
  back := h.back.pushed h.le_pc hrestore hpushed

/-- There is a character to be executed. -/
theorem behind_ne_nil (h : Running I s₀ text behind heads s log c)
    (hlt : c.pc < c.str.length) : exists chr behind', behind = chr :: behind' := by
  cases behind with
  | nil =>
      rw [h.pc, h.str, h.finished rfl, List.append_nil] at hlt
      exact absurd hlt (Nat.lt_irrefl _)
  | cons chr behind => exact ⟨chr, behind, rfl⟩

/-- The machine is between characters. -/
theorem at_end {goal more : List Gunichar}
    (h : Running I s₀ text behind heads s log c)
    (hsplit : text ++ behind = goal ++ more)
    (hpc : c.pc = (encoded goal).length) :
    text = goal ∧ behind = more ∧ log = [] := by
  have hgoal : goal <+: text := by
    cases behind with
    | nil =>
        rw [List.append_nil] at hsplit
        rw [hsplit]
        exact List.prefix_append goal more
    | cons chr behind =>
        apply begins_of_lt (hsplit ▸ List.prefix_append goal more)
        rw [<- hpc]
        exact h.pc_lt
  rcases hgoal with ⟨mid, rfl⟩
  have hlength := h.pc
  rw [hpc, encoded_append, List.length_append] at hlength
  have hmid : mid = [] := by
    cases mid with
    | nil => rfl
    | cons chr mid =>
        have hpos := List.length_pos_iff.mpr (unicharToUtf8_ne_nil chr)
        rw [encoded_cons, List.length_append] at hlength
        omega
  subst hmid
  rw [List.append_nil] at hsplit ⊢
  refine ⟨rfl, List.append_cancel_left hsplit, ?_⟩
  apply List.eq_nil_of_length_eq_zero
  omega

/-- The end of the loop. -/
theorem ready (h : Running I s₀ text behind heads s log c)
    (hwithin : Within c) (hnot : ¬ c.pc < c.effectiveLen) :
    Ready I s₀ text behind heads s c := by
  have hpc : c.pc = c.effectiveLen :=
    Nat.le_antisymm hwithin.pc_le (Nat.le_of_not_lt hnot)
  rcases hwithin.boundary with ⟨line, back, hvalid, hstr, hlength⟩
  have hsplit : text ++ behind = line ++ back :=
    encoded_inj h.valid hvalid (h.str.symm.trans hstr)
  rcases h.at_end hsplit (hpc.trans hlength) with ⟨rfl, rfl, _⟩
  exact
    { valid := h.valid
      str := h.str
      effectiveLen := hlength
      logged := hpc ▸ h.logged
      back := h.back }

end Running

/-!
## A pass of the loop
-/

/-- Both strings begin with the characters in front of a difference between
characters. -/
theorem Differ.front {old new : Bytes} (h : Differ old new)
    {text : List Gunichar} (htext : ValidText text)
    (hstr : old = encoded text) :
    exists front back more, text = front ++ back ∧
      ValidText (front ++ more) ∧ new = encoded (front ++ more) ∧
      Completion.stringDiff old new = (encoded front).length := by
  rcases h.inOld with ⟨front, back, hvalid, hold, hlength⟩
  rcases h.inNew with ⟨front', more, hvalid', hnew, hlength'⟩
  have hsplit : text = front ++ back :=
    encoded_inj htext hvalid (hstr.symm.trans hold)
  have hbegins : encoded front' <+: new := by
    rw [hnew, encoded_append]
    exact List.prefix_append _ _
  have hle : (encoded front').length ≤ CommonPrefix.shared old new := by
    rw [<- hlength', Completion.stringDiff_eq]
  have hcommon : encoded front' <+: old :=
    (CommonPrefix.prefix_and_iff.mpr ⟨hbegins, hle⟩).1
  have hsame : front' = front := by
    apply encoded_inj hvalid'.left hvalid.left
    have hfront : encoded front <+: old := by
      rw [hold, encoded_append]
      exact List.prefix_append _ _
    have heq : (encoded front').length = (encoded front).length :=
      hlength'.symm.trans hlength
    exact (List.prefix_of_prefix_length_le hcommon hfront
      (Nat.le_of_eq heq)).eq_of_length heq
  subst hsame
  exact ⟨front', back, more, hsplit, hvalid', hnew, hlength⟩

/-- The state from which a command line is executed. -/
theorem Stopped.restart {front more : List Gunichar} {str : Bytes}
    (h : Stopped I s₀ text rest heads s c) (hfront : front <+: text)
    (hvalid : ValidText (front ++ more))
    (hstr : str = encoded (front ++ more)) (effectiveLen : Nat) :
    exists heads' t, Running I s₀ front more heads' t []
      { (c.undoPop (encoded front).length).setPc I (encoded front).length with
        str := str, effectiveLen := effectiveLen } := by
  rcases h.back.undoPop hfront with ⟨heads', t, hback⟩
  have hlog : (c.undoPop (encoded front).length).undoHeads.length ≤
      (encoded front).length := by
    change (c.undoHeads.take _).length ≤ _
    rw [List.length_take]
    exact Nat.min_le_left _ _
  exact ⟨heads', t, Running.begin hback hlog hvalid hstr rfl rfl rfl⟩

/-- Another command that can be undone. -/
theorem Stopped.pushed {tokens : List (σ -> σ)} {undoHeads : Log σ} {t : σ}
    (h : Stopped I s₀ text rest heads s c)
    (hrestore : forall u, I.Same u t -> I.Same (unwind tokens u) c.machine)
    (hpushed : Pushed c.pc tokens c.undoHeads undoHeads) :
    Stopped I s₀ text rest heads s
      { c with machine := t, undoHeads := undoHeads } where
  valid := h.valid
  str := h.str
  behind := h.behind
  within := h.within
  logged := hpushed.length_le
  back := h.back.pushed h.behind hrestore hpushed

/-- The new command line behind the first difference. -/
theorem Stopped.exchange {new : Bytes}
    (h : Stopped I s₀ text rest heads s c) (hsafe : SafeExchange c new) :
    exists front back more heads' s', text ++ rest = front ++ back ∧
      front <+: text ∧ new = encoded (front ++ more) ∧
      Completion.stringDiff c.str new = (encoded front).length ∧
      Running I s₀ front more heads' s' [] (c.exchange I new) := by
  rcases hsafe.front h.valid h.str with
    ⟨front, back, more, hsplit, hvalid, hnew, hdiff⟩
  have hfront : front <+: text := by
    apply h.within
    · rw [hsplit]
      exact List.prefix_append _ _
    · rw [<- hdiff]
      exact hsafe.pc
  rcases h.restart hfront hvalid hnew new.length with
    ⟨heads', s', hrunning⟩
  refine ⟨front, back, more, heads', s', hsplit, hfront, hnew, hdiff, ?_⟩
  unfold Cmdline.exchange
  dsimp only
  rw [hdiff]
  exact hrunning

/-- What a pass leaves behind. -/
def PassSpec (I : Interpreter σ) (s₀ : σ) : Pass σ -> Prop
  | .again l => exists text behind heads s log,
      Running I s₀ text behind heads s log l.cmdline ∧ Within l.cmdline ∧
        Replays text l
  | .failed _ c => exists text rest heads s, Stopped I s₀ text rest heads s c
  | .crashed cause => cause ≠ CmdlineFault.undoHeads

theorem exchangeCmdlines_spec {l : Insertion σ}
    (h : Stopped I s₀ text rest heads s c)
    (hrestores : RestoresAt I.Same I.getReplacement c.machine)
    (hsafe : forall new d, onMachine I.getReplacement c = .ok new d [] ->
      SafeExchange d new) :
    PassSpec I s₀ (exchangeCmdlines I l c) := by
  unfold exchangeCmdlines
  cases hrun : I.getReplacement c.machine with
  | ok new t tokens =>
      rcases onMachine_ok h.logged hrun with ⟨undoHeads, hpushed, hmachine⟩
      unfold RestoresAt at hrestores
      rw [hrun] at hrestores
      have hstopped := h.pushed hrestores hpushed
      have hexchange := hsafe _ _ hmachine
      rw [hmachine]
      dsimp only
      split
      · intro hcontra
        cases hcontra
      · rcases hstopped.exchange hexchange with
          ⟨front, back, more, heads', s', hsplit, hfront, hnew, hdiff,
            hrunning⟩
        refine ⟨front, more, heads', s', [], hrunning, ?_, ?_⟩
        · refine ⟨⟨front ++ more, [], ?_, ?_, ?_⟩, ?_⟩
          · rw [List.append_nil]
            exact hrunning.valid
          · rw [List.append_nil]
            exact hrunning.str
          · exact congrArg List.length hnew
          · rw [hrunning.pc]
            change _ ≤ new.length
            rw [hnew, encoded_append, List.length_append]
            exact Nat.le_add_right _ _
        · intro _
          have hvalid' := hstopped.valid
          have hstr := hstopped.str
          rw [hsplit] at hvalid' hstr
          exact ⟨front, back, hvalid', hstr, hdiff, List.prefix_refl _⟩
  | error e t tokens =>
      rcases onMachine_error h.logged hrun with
        ⟨undoHeads, hpushed, hmachine⟩
      unfold RestoresAt at hrestores
      rw [hrun] at hrestores
      rw [hmachine]
      exact ⟨text, rest, heads, s, h.pushed hrestores hpushed⟩
  | fault cause =>
      rw [onMachine_fault hrun]
      intro hcontra
      cases hcontra

/-- The previous command line is executed again. -/
theorem Stopped.replay {l : Insertion σ} {front behind : List Gunichar}
    (h : Stopped I s₀ text rest heads s c) (hfront : front <+: text)
    (hvalid : ValidText (front ++ behind))
    (hstr : l.oldCmdline = encoded (front ++ behind))
    (hpc : l.replPc = (encoded front).length) :
    exists heads' t,
      Running I s₀ front behind heads' t [] (replay I l c).cmdline := by
  unfold Cmdline.replay
  rw [hpc]
  exact h.restart hfront hvalid hstr (c.effectiveLen - 1)

theorem replay_spec {l : Insertion σ} (h : Stopped I s₀ text rest heads s c)
    (hlt : c.pc < c.effectiveLen) (hold : l.oldCmdline ≠ [])
    (hreplays : Replays text l)
    (hsafe : IsBoundary l.oldCmdline (c.effectiveLen - 1)) :
    PassSpec I s₀ (.again (replay I l c)) := by
  rcases hreplays hold with ⟨front, behind, hvalid, hstr, hpc, hfront⟩
  rcases h.replay hfront hvalid hstr hpc with ⟨heads', t, hrunning⟩
  refine ⟨front, behind, heads', t, [], hrunning, ⟨hsafe, ?_⟩, ?_⟩
  · rw [hrunning.pc]
    rcases hfront with ⟨mid, rfl⟩
    have hbehind := h.behind
    rw [encoded_append, List.length_append] at hbehind
    change _ ≤ c.effectiveLen - 1
    rw [List.length_nil]
    omega
  · intro hcontra
    exact absurd rfl hcontra

/-- A pass of the loop. -/
theorem pass_spec {l : Insertion σ}
    (h : Running I s₀ text behind heads s log l.cmdline)
    (hwithin : Within l.cmdline) (hreplays : Replays text l)
    (hlt : l.cmdline.pc < l.cmdline.effectiveLen) (hsafe : SafePass I l) :
    PassSpec I s₀ (pass I l) := by
  rcases hwithin.boundary with ⟨line, back, _, hstr, hlength⟩
  have hend : l.cmdline.effectiveLen ≤ l.cmdline.str.length := by
    rw [hlength, hstr, encoded_append, List.length_append]
    exact Nat.le_add_right _ _
  rcases h.behind_ne_nil (Nat.lt_of_lt_of_le hlt hend) with ⟨chr, behind, rfl⟩
  have hlog := Nat.le_succ_of_le h.logged
  have hrestores := hsafe.restores
  unfold pass
  cases hrun : I.step l.cmdline.view l.cmdline.machine with
  | ok u t tokens =>
      rcases onMachine_ok hlog hrun with ⟨undoHeads, hpushed, hmachine⟩
      rw [hmachine]
      rcases h.byte hrun hrestores (h.steadyAt hsafe.steady) hpushed with
        ⟨text', behind', heads', s', log', hrunning, _, hlonger⟩
      refine ⟨text', behind', heads', s', log', hrunning,
        ⟨hwithin.boundary, Nat.succ_le_of_lt hlt⟩, ?_⟩
      intro hold
      rcases hreplays hold with ⟨front, behind, hvalid, hstr, hpc, hfront⟩
      exact ⟨front, behind, hvalid, hstr, hpc, hfront.trans hlonger⟩
  | error e t tokens =>
      rcases onMachine_error hlog hrun with ⟨undoHeads, hpushed, hmachine⟩
      unfold RestoresAt at hrestores
      rw [hrun] at hrestores
      have hstopped := h.stopped hrestores hpushed
      rw [hmachine]
      dsimp only
      by_cases hcode : e.code = ErrorCode.cmdline
      · rw [if_pos hcode]
        rcases hsafe.exchange e _ hmachine hcode with ⟨hget, hexchange⟩
        exact exchangeCmdlines_spec hstopped hget hexchange
      · rw [if_neg hcode]
        split
        case isTrue hboth =>
            exact replay_spec hstopped hlt hboth.2 hreplays
              (hsafe.replay e _ hmachine hboth.1 hboth.2)
        case isFalse => exact ⟨text, _, heads, s, hstopped⟩
  | fault cause =>
      rw [onMachine_fault hrun]
      intro hcontra
      cases hcontra

/-!
## The loop
-/

/-- What the loop leaves behind. -/
def LoopSpec (I : Interpreter σ) (s₀ : σ) :
    Outcome TecoError CmdlineFault (Cmdline σ) Unit -> Prop
  | .ok _ c tokens => tokens = [] ∧
      exists text rest heads s, Ready I s₀ text rest heads s c
  | .error _ c tokens => tokens = [] ∧
      exists text rest heads s, Stopped I s₀ text rest heads s c
  | .fault cause => cause ≠ CmdlineFault.undoHeads

theorem insertLoop_spec {fuel : Nat} {l : Insertion σ}
    (h : Running I s₀ text behind heads s log l.cmdline)
    (hwithin : Within l.cmdline) (hreplays : Replays text l)
    (hsafe : Along I (SafePass I) fuel l) :
    LoopSpec I s₀ (insertLoop I fuel l) := by
  induction fuel generalizing l text behind heads s log with
  | zero =>
      intro hcontra
      cases hcontra
  | succ fuel ih =>
      unfold insertLoop
      split
      case isTrue hlt =>
          rcases hsafe hlt with ⟨hpass, hrest⟩
          have hspec := pass_spec h hwithin hreplays hlt hpass
          cases hresult : pass I l with
          | again l' =>
              rw [hresult] at hspec
              rcases hspec with ⟨text', behind', heads', s', log', hrunning,
                hwithin', hreplays'⟩
              exact ih hrunning hwithin' hreplays' (hrest l' hresult)
          | failed e c =>
              rw [hresult] at hspec
              exact ⟨rfl, hspec⟩
          | crashed cause =>
              rw [hresult] at hspec
              exact hspec
      case isFalse hnot =>
          exact ⟨rfl, text, behind, heads, s, h.ready hwithin hnot⟩

end Cmdline
end SciTECO
