import SciTECO.Cmdline.Exchange

/-!
# Rolling back a replacement

If the new line fails, the previous one is replayed.  Its effective length is
computed from that of the new line.
-/

namespace SciTECO
namespace Cmdline

open PositionLog Undoable Interpreter

variable {σ : Type} {I : Interpreter σ} {s₀ : σ} {l : Insertion σ}
  {text rest line : List Gunichar} {heads : Log σ} {s : σ} {c : Cmdline σ}

/-!
## Lines that fail
-/

/-- A line fails. -/
def Raises (I : Interpreter σ) (s₀ : σ) (line : List Gunichar) : Prop :=
  exists goal next more heads s log t e u tokens,
    line = goal ++ next :: more ∧ Reaches I s₀ goal next heads s log t ∧
      I.step (viewOf (encoded (goal ++ [next]))
        ((encoded goal).length + log.length)) t = .error e u tokens ∧
      Ordinary e

/-- A line that begins with the old one and `}` does not fail either. -/
theorem Replaces.not_raises {other : List Gunichar}
    (h : Replaces I text line s) (htext : Executed I s₀ text heads s)
    (hraises : Raises I s₀ other) (hbegins : text ++ [closing] <+: other) :
    False := by
  rcases hraises with ⟨goal, next, more, heads', s', log, t, e, u, tokens,
    hsplit, hgoal, hstep, hordinary⟩
  have hfails : goal ++ [next] <+: other :=
    ⟨more, by rw [hsplit, List.append_assoc, List.singleton_append]⟩
  have hcases : text ++ [closing] = goal ++ [next] ∨
      text ++ [closing] <+: goal ∨ goal ++ [next] <+: text := by
    rcases List.prefix_or_prefix_of_prefix hbegins hfails with hle | hle
    · rcases List.prefix_concat_iff.mp hle with heq | hshort
      · exact Or.inl heq
      · exact Or.inr (Or.inl hshort)
    · rcases List.prefix_concat_iff.mp hle with heq | hshort
      · exact Or.inl heq.symm
      · exact Or.inr (Or.inr hshort)
  rcases hcases with heq | hshort | hshort
  · -- The failing character is `}` itself.
    rcases List.append_inj' heq rfl with ⟨rfl, hchr⟩
    cases hchr
    have hlog : log.length = 0 := by
      have hlt := hgoal.length_lt
      rw [unicharToUtf8_closing] at hlt
      exact Nat.lt_one_iff.mp hlt
    have ht := hgoal.unique (Reaches.closing htext) hlog
    rcases h with ⟨e', t', tokens₁, u', tokens₂, hraised, hcode, _⟩
    rw [ht, hlog, Nat.add_zero, hraised] at hstep
    cases hstep
    exact hordinary.1 hcode
  · exact h.not_executed htext hgoal.executed hshort
  · rcases hgoal.step_of_executed htext hshort with ⟨v, tokens', hok⟩
    rw [hstep] at hok
    cases hok

/-!
## Replaying the old line
-/

/-- The old line is executed from the first difference on, up to the length of
the new one. -/
structure OldLine (I : Interpreter σ) (s₀ : σ) (old : Bytes)
    (line : List Gunichar) (l : Insertion σ) : Prop where
  effectiveLen : l.cmdline.effectiveLen = (encoded line).length - 1
  oldCmdline : l.oldCmdline = []
  diff_lt : Completion.stringDiff old (encoded line) < (encoded line).length
  running : exists front back more heads s,
    old = encoded (front ++ back) ∧ line = front ++ more ∧
      Completion.stringDiff old (encoded line) = (encoded front).length ∧
      Running I s₀ front back heads s [] l.cmdline

/-- The new line fails behind the first difference, and the old one is
replayed. -/
theorem NewLine.replays {old : Bytes} (h : NewLine I s₀ old line l)
    (hold : old ≠ [])
    (hplain : Plain I s₀ (encoded line).length
      (Completion.stringDiff old (encoded line)) line)
    (hraises : Raises I s₀ line) :
    exists n l', Goes I (n + 1) l l' ∧ OldLine I s₀ old line l' := by
  rcases h.running with
    ⟨front, back, more, heads₁, s₁, hvalid, hstr, hline, hdiff, hrunning⟩
  rcases hraises with ⟨goal, next, behind, heads₂, s₂, log₂, t, e, u, tokens,
    hsplit, hgoal, hstep, hordinary⟩
  have hbegins : goal ++ [next] <+: line :=
    ⟨behind, by rw [hsplit, List.append_assoc, List.singleton_append]⟩
  have hfront : front <+: goal := by
    apply begins_of_lt (hsplit ▸ hline ▸ List.prefix_append front more)
    -- Otherwise the failing character would have been executed.
    apply Nat.lt_of_not_le
    intro hle
    have hexecuted := begins_of_length_le hbegins
      (hline ▸ List.prefix_append front more) hle
    rcases hgoal.step_of_executed hrunning.back.executed hexecuted with
      ⟨v, tokens', hok⟩
    rw [hstep] at hok
    cases hok
  have hshort : (encoded front).length ≤ (encoded goal).length := by
    rcases hfront with ⟨mid, rfl⟩
    rw [encoded_append, List.length_append]
    exact Nat.le_add_right _ _
  have hpc : l.cmdline.pc = (encoded front).length := hrunning.pc
  have hlength : (encoded goal).length + log₂.length <
      (encoded line).length := by
    have hlt := hgoal.length_lt
    rw [hsplit, encoded_append, encoded_cons, List.length_append,
      List.length_append]
    omega
  have hplain' : Plain I s₀ l.cmdline.effectiveLen (encoded front).length
      (goal ++ [next]) := by
    rw [h.effectiveLen, <- hdiff]
    exact hplain.front hbegins
  have hwhole : front ++ more = (goal ++ [next]) ++ behind := by
    rw [List.append_assoc, List.singleton_append]
    exact hline.symm.trans hsplit
  rcases hrunning.goes (n := (encoded goal).length + log₂.length -
      (encoded front).length) hplain' hgoal.succeeds hwhole (by omega)
      (by have hlt := hgoal.length_lt; rw [encoded_snoc]; omega)
      (by rw [h.effectiveLen]; omega) with
    ⟨l', text', behind', heads', s', log', hgoes, hsame, hpc', hrunning',
      hsplit', _⟩
  rw [List.append_assoc, List.singleton_append] at hsplit'
  rcases hrunning'.at_goal hgoal hsplit' (by omega) with
    ⟨rfl, rfl, hlog, hmachine⟩
  have hnext : PlainAt I s₀ l'.cmdline.effectiveLen text' next := by
    rw [hsame.effectiveLen, h.effectiveLen]
    exact hplain text' next (hdiff ▸ hshort) hbegins
  rcases hrunning'.plain hnext with ⟨hsteady, hrestores⟩
  have hrun : I.step l'.cmdline.view l'.cmdline.machine =
      .error e u tokens := by
    rw [hrunning'.view_eq hsteady, hmachine, hlog]
    exact hstep
  unfold RestoresAt at hrestores
  rw [hrun] at hrestores
  rcases onMachine_error (Nat.le_succ_of_le hrunning'.logged) hrun with
    ⟨heads, hpushed, hmachine'⟩
  have hstopped := hrunning'.stopped hrestores hpushed
  have hold' : l'.oldCmdline = old := hsame.oldCmdline.trans h.oldCmdline
  rcases hstopped.replay hfront hvalid (hold'.trans hstr)
      ((hsame.replPc.trans h.replPc).trans hdiff) with
    ⟨heads'', s'', hrunning''⟩
  have hpass : pass I l' = .again (replay I l'
      { l'.cmdline with machine := u, undoHeads := heads }) := by
    unfold Cmdline.pass
    rw [hmachine']
    dsimp only
    rw [if_neg hordinary.1, if_pos ⟨hordinary, hold' ▸ hold⟩]
  refine ⟨_, _, hgoes.trans (Goes.pass ?_ hpass (Goes.refl _)), ?_, rfl, ?_,
    front, back, more, heads'', s'', hstr, hline, hdiff, hrunning''⟩
  · rw [hsame.effectiveLen, h.effectiveLen]
    omega
  · change l'.cmdline.effectiveLen - 1 = _
    rw [hsame.effectiveLen, h.effectiveLen]
  · omega

/-!
## The old line
-/

/-- The previous command line, which has been executed up to `}`. -/
structure Closed (I : Interpreter σ) (s₀ : σ)
    (text rest line : List Gunichar) (heads : Log σ) (s : σ) (old : Bytes) :
    Prop where
  valid : ValidText (text ++ closing :: rest)
  str : old = encoded (text ++ closing :: rest)
  executed : Executed I s₀ text heads s
  plain : Plain I s₀ ((encoded line).length - 1)
    (Completion.stringDiff old (encoded line)) (text ++ [closing])

theorem Closed.ne_nil {old : Bytes} (h : Closed I s₀ text rest line heads s old) :
    old ≠ [] := by
  rw [h.str]
  intro hnil
  have hpos : (encoded text).length <
      (encoded (text ++ closing :: rest)).length := length_encoded_lt
  rw [hnil] at hpos
  cases hpos

namespace OldLine

variable {old : Bytes}

/-- Up to the length of the new line. -/
theorem ends (h : OldLine I s₀ old line l)
    (hold : Closed I s₀ text rest line heads s old)
    (hle : (encoded line).length - 1 ≤ (encoded text).length) :
    exists n l', Goes I n l l' ∧ l'.cmdline.str = old ∧
      l'.cmdline.pc = (encoded line).length - 1 ∧
      l'.cmdline.effectiveLen = (encoded line).length - 1 ∧
      exists text' behind' heads' s' log',
        Running I s₀ text' behind' heads' s' log' l'.cmdline ∧
          text' ++ behind' = text ++ closing :: rest := by
  rcases h.running with
    ⟨front, back, more, heads₁, s₁, hstr, hline, hfront, hrunning⟩
  have hsplit : front ++ back = text ++ closing :: rest :=
    encoded_inj hrunning.valid hold.valid (hstr.symm.trans hold.str)
  have hpc : l.cmdline.pc = (encoded front).length := hrunning.pc
  have hdiff := h.diff_lt
  have hplain : Plain I s₀ l.cmdline.effectiveLen (encoded front).length
      text := by
    rw [h.effectiveLen, <- hfront]
    exact hold.plain.front (List.prefix_append text [closing])
  rcases hrunning.goes (n := (encoded line).length - 1 -
      (encoded front).length) hplain (executed_succeeds hold.executed _) hsplit
      (by omega) (Nat.le_refl _) (by rw [h.effectiveLen]; omega) with
    ⟨l', text', behind', heads', s', log', hgoes, hsame, hpc', hrunning',
      hsplit', _⟩
  refine ⟨_, l', hgoes, ?_, by omega, hsame.effectiveLen.trans h.effectiveLen,
    text', behind', heads', s', log', hrunning', hsplit'⟩
  rw [hrunning'.str, hsplit', hold.str]

/-- If the new line is longer, `}` is executed again. -/
theorem again (h : OldLine I s₀ old line l)
    (hold : Closed I s₀ text rest line heads s old) (hvalid : ValidText line)
    (hreplaces : Replaces I text line s) (hdiffer : Differ old (encoded line))
    (hdiff : Completion.stringDiff old (encoded line) ≤ (encoded text).length)
    (hlt : (encoded text).length < (encoded line).length - 1) :
    exists n l', Goes I (n + 1) l l' ∧ NewLine I s₀ old line l' := by
  rcases h.running with
    ⟨front, back, more, heads₁, s₁, hstr, hline, hfront, hrunning⟩
  have hsplit : front ++ back = text ++ closing :: rest :=
    encoded_inj hrunning.valid hold.valid (hstr.symm.trans hold.str)
  have hpc : l.cmdline.pc = (encoded front).length := hrunning.pc
  have hplain : Plain I s₀ l.cmdline.effectiveLen (encoded front).length
      text := by
    rw [h.effectiveLen, <- hfront]
    exact hold.plain.front (List.prefix_append text [closing])
  rcases hrunning.goes (n := (encoded text).length - (encoded front).length)
      hplain (executed_succeeds hold.executed _) hsplit (by omega)
      (Nat.le_refl _) (by rw [h.effectiveLen]; omega) with
    ⟨l₂, text', behind', heads', s', log', hgoes, hsame, hpc', hrunning',
      hsplit', _⟩
  rcases hrunning'.at_end hsplit' (by omega) with ⟨rfl, rfl, rfl⟩
  rcases hold.executed.unique hrunning'.back.executed with ⟨rfl, rfl⟩
  have hstr' : l₂.cmdline.str = old := hrunning'.str.trans hold.str.symm
  have hsafe : SafeExchange l₂.cmdline (encoded line) := by
    constructor
    · rw [hstr']
      exact hdiffer
    · rw [hstr', hrunning'.pc]
      exact hdiff
  have hclosing : PlainAt I s₀ l₂.cmdline.effectiveLen text' closing := by
    rw [hsame.effectiveLen, h.effectiveLen]
    exact hold.plain text' closing hdiff (List.prefix_refl _)
  rcases hrunning'.exchanged hvalid hclosing hreplaces hsafe
      (hsame.oldCmdline.trans h.oldCmdline) with ⟨l₃, hpass, hnew⟩
  rw [hstr'] at hnew
  refine ⟨_, l₃, hgoes.trans (Goes.pass ?_ hpass (Goes.refl l₃)), hnew⟩
  rw [hsame.effectiveLen, h.effectiveLen]
  omega

end OldLine

/-- The lines are executed by turns for ever. -/
theorem NewLine.never_ok {old : Bytes} (hold : Closed I s₀ text rest line heads s old)
    (hvalid : ValidText line)
    (hplain : Plain I s₀ (encoded line).length
      (Completion.stringDiff old (encoded line)) line)
    (hreplaces : Replaces I text line s) (hdiffer : Differ old (encoded line))
    (hdiff : Completion.stringDiff old (encoded line) ≤ (encoded text).length)
    (hraises : Raises I s₀ line)
    (hlt : (encoded text).length < (encoded line).length - 1) (fuel : Nat)
    (h : NewLine I s₀ old line l) (d : Cmdline σ) :
    insertLoop I fuel l ≠ .ok () d [] := by
  induction fuel using Nat.strongRecOn generalizing l with
  | ind fuel ih =>
      intro hok
      rcases h.replays hold.ne_nil hplain hraises with
        ⟨m, l₂, hgoes, hreplayed⟩
      rcases hreplayed.again hold hvalid hreplaces hdiffer hdiff hlt with
        ⟨n, l₃, hgoes', hnew⟩
      have hall := hgoes.trans hgoes'
      have hle := hall.le_of_ok hok
      obtain ⟨rest, hrest⟩ := Nat.exists_eq_add_of_le hle
      rw [hrest, hall.insertLoop_eq] at hok
      exact ih rest (by omega) hnew hok

/-- The command line is the one in front of `}`. -/
def RolledBack (I : Interpreter σ) (text : List Gunichar) (s : σ)
    (d : Cmdline σ) : Prop :=
  d.str.take d.effectiveLen = encoded text ∧
    d.effectiveLen ≤ d.str.length ∧ I.Same d.machine s

/-- A replacement that fails is rolled back if and only if the new line is as
long as the old one with `}`. -/
theorem rollback_iff (h : Exchanging I s₀ text rest line heads s c)
    (hreplay : Plain I s₀ ((encoded line).length - 1)
      (Completion.stringDiff (c.inserting I [0x7D]).cmdline.str (encoded line))
      (text ++ [closing]))
    (hraises : Raises I s₀ line) :
    (exists fuel d, insert I fuel [0x7D] c = .ok () d [] ∧
        RolledBack I text s d) <->
      (encoded line).length = (encoded text).length + 1 := by
  rcases h.running with ⟨rest', hrunning, hlt⟩
  obtain ⟨old, hstr⟩ : exists old, old = (c.inserting I [0x7D]).cmdline.str :=
    ⟨_, rfl⟩
  have hdiff : Completion.stringDiff old (encoded line) ≤
      (encoded text).length := by
    apply Nat.le_of_not_lt
    intro hbehind
    rw [hstr] at hbehind
    exact h.replaces.not_raises h.ready.back.executed hraises
      (h.closing_begins hbehind)
  have hold : Closed I s₀ text rest' line heads s old :=
    ⟨hrunning.valid, hstr.trans hrunning.str, h.ready.back.executed,
      hstr ▸ hreplay⟩
  have hdiffer := h.differ
  have hplain := h.newPlain
  rw [hstr] at hdiff
  rcases h.exchanged hdiff with ⟨l₁, hgoes₁, _, hnew⟩
  rw [<- hstr] at hdiff hdiffer hnew hplain
  rcases hnew.replays hold.ne_nil hplain hraises with
    ⟨n, l₂, hgoes₂, hreplayed⟩
  have hshort := hreplayed.diff_lt
  have hinsert : forall fuel, insert I fuel [0x7D] c =
      insertLoop I fuel (c.inserting I [0x7D]) := by
    intro fuel
    unfold insert
    rw [if_neg (Nat.not_lt.mpr h.ready.length_le)]
  constructor
  · intro hrolled
    rcases hrolled with ⟨fuel, d, hok, htake, hlength, _⟩
    rw [hinsert] at hok
    obtain ⟨fuel₁, rfl⟩ := Nat.exists_eq_add_of_le (hgoes₁.le_of_ok hok)
    rw [hgoes₁.insertLoop_eq] at hok
    rcases Nat.lt_or_ge (encoded text).length ((encoded line).length - 1) with
      hlonger | hle
    · exact absurd hok (hnew.never_ok hold h.valid hplain h.replaces hdiffer
        hdiff hraises hlonger fuel₁ d)
    · rcases hreplayed.ends hold hle with
        ⟨m, l₃, hgoes₃, hstr₃, hpc₃, heffective₃, _⟩
      have hall := hgoes₂.trans hgoes₃
      obtain ⟨fuel₂, rfl⟩ := Nat.exists_eq_add_of_le (hall.le_of_ok hok)
      rw [hall.insertLoop_eq] at hok
      cases fuel₂ with
      | zero => cases hok
      | succ fuel₂ =>
          rw [insertLoop, if_neg (by omega)] at hok
          cases hok
          have heq := congrArg List.length htake
          rw [List.length_take, Nat.min_eq_left hlength, heffective₃] at heq
          omega
  · intro heq
    rcases hreplayed.ends hold (by omega) with
      ⟨m, l₃, hgoes₃, hstr₃, hpc₃, heffective₃, text', behind', heads', s',
        log', hrunning', hsplit'⟩
    have hpc : l₃.cmdline.pc = (encoded text).length := by omega
    rcases hrunning'.at_end hsplit' hpc with ⟨rfl, rfl, _⟩
    have hwithin : Within l₃.cmdline :=
      ⟨⟨text', closing :: rest', hold.valid, hstr₃.trans hold.str, by omega⟩,
        by omega⟩
    have hready := hrunning'.ready hwithin (by omega)
    rcases hold.executed.unique hready.back.executed with ⟨rfl, rfl⟩
    refine ⟨1 + (n + 1 + m + 1), l₃.cmdline, ?_, hready.effective,
      hready.length_le, hready.machine⟩
    rw [hinsert, hgoes₁.insertLoop_eq, (hgoes₂.trans hgoes₃).insertLoop_eq,
      insertLoop, if_neg (by omega)]

theorem letter_rolledBack :
    exists fuel d, insert recorder fuel [0x7D] (letterTyped [0x61, 0x29]) =
        .ok () d [] ∧
      RolledBack recorder [0x61]
        { recordingOf [0x61, 0x29] with done := [0x61] } d := by
  have hvalid : ValidText [0x61, 0x29] := by decide
  have hexchanging :=
    letter_exchanging hvalid (letter_differ hvalid (by decide))
  have hraises : Raises recorder (recordingOf [0x61, 0x29]) [0x61, 0x29] :=
    ⟨[0x61], 0x29, [], _, _, [], _, _, _, _, rfl,
      ⟨hexchanging.ready.back.executed, Steps.nil, by decide⟩, rfl, by decide⟩
  apply (rollback_iff hexchanging ?_ hraises).mpr
  · decide
  · intro text chr _ _
    exact plainAt_of_steady recorder_steady recorder_restores _ _ _

/-- The line `{I)^[}` is replaced by `)`, which fails. -/
theorem line_lost :
    exists c d, typeKeys Parser.sampleMachine 100 sampleKeys
        [[0x7B, 0x49, 0x29, 0x1B]] (empty Parser.sampleStart) = some c ∧
      c.machine.editor.world.replacement = [0x29] ∧
      (Parser.sampleMachine.execute Parser.sampleStart [0x29]).isNone = true ∧
      typeKeys Parser.sampleMachine 100 sampleKeys [[0x7D]] c = some d ∧
      d.str = c.str ++ [0x7D] ∧ d.str.take d.effectiveLen ≠ c.str := by
  have hfirst : (typeKeys Parser.sampleMachine 100 sampleKeys
      [[0x7B, 0x49, 0x29, 0x1B]] (empty Parser.sampleStart)).map (fun c =>
        (c.str, c.machine.editor.world.replacement)) =
      some ([0x7B, 0x49, 0x29, 0x1B], [0x29]) := by
    decide +kernel
  have hboth : (typeKeys Parser.sampleMachine 100 sampleKeys
      [[0x7B, 0x49, 0x29, 0x1B], [0x7D]] (empty Parser.sampleStart)).map
        (fun d => (d.str, d.effectiveLen)) =
      some ([0x7B, 0x49, 0x29, 0x1B, 0x7D], 0) := by
    decide +kernel
  rcases Option.map_eq_some_iff.mp hfirst with ⟨c, hrun, hc⟩
  rcases Option.map_eq_some_iff.mp hboth with ⟨d, hrun', hd⟩
  rcases typeKeys_cons hrun' with ⟨c', hfirst', hsecond⟩
  rw [hrun] at hfirst'
  cases hfirst'
  rcases Prod.mk.inj hc with ⟨hstr, hregister⟩
  rcases Prod.mk.inj hd with ⟨hstr', hlength⟩
  refine ⟨c, d, hrun, hregister, by decide +kernel, hsecond, ?_, ?_⟩
  · rw [hstr', hstr]
    rfl
  · rw [hstr', hlength, hstr]
    decide

end Cmdline
end SciTECO
