import SciTECO.Cmdline.Passes

/-!
# Command line replacement

The command `}` exchanges the command line from the first difference on.
-/

namespace SciTECO
namespace Cmdline

open PositionLog Undoable Interpreter

variable {σ : Type} {I : Interpreter σ} {s₀ : σ} {l l' l'' : Insertion σ}
  {m n : Nat} {text behind rest : List Gunichar} {heads log : Log σ} {s : σ}

/-!
## The new line
-/

/-- The command `}`. -/
def closing : Gunichar := '\x7d'.toNat

theorem unicharToUtf8_closing : unicharToUtf8 closing = [0x7D] := by decide

/-- Behind a text the command line is replaced by a line. -/
def Replaces (I : Interpreter σ) (text line : List Gunichar) (s : σ) : Prop :=
  exists e t tokens u tokens',
    I.step (viewOf (encoded (text ++ [closing])) (encoded text).length)
        (I.setMacroPc (encoded text).length s) = .error e t tokens ∧
      e.code = ErrorCode.cmdline ∧
      I.getReplacement t = .ok (encoded line) u tokens' ∧
      RestoresAt I.Same I.getReplacement t

/-- The new line is executed from the first difference on. -/
structure NewLine (I : Interpreter σ) (s₀ : σ) (old : Bytes)
    (line : List Gunichar) (l : Insertion σ) : Prop where
  effectiveLen : l.cmdline.effectiveLen = (encoded line).length
  oldCmdline : l.oldCmdline = old
  replPc : l.replPc = Completion.stringDiff old (encoded line)
  running : exists front back more heads s,
    ValidText (front ++ back) ∧ old = encoded (front ++ back) ∧
      line = front ++ more ∧
      Completion.stringDiff old (encoded line) = (encoded front).length ∧
      Running I s₀ front more heads s [] l.cmdline

section

variable {line : List Gunichar}

/-- The command lines are exchanged. -/
theorem Running.exchanged
    (h : Running I s₀ text (closing :: rest) heads s [] l.cmdline)
    (hvalid : ValidText line)
    (hplain : PlainAt I s₀ l.cmdline.effectiveLen text closing)
    (hreplaces : Replaces I text line s)
    (hsafe : SafeExchange l.cmdline (encoded line))
    (hold : l.oldCmdline = []) :
    exists l', pass I l = .again l' ∧
      NewLine I s₀ l.cmdline.str line l' := by
  rcases hreplaces with ⟨e, t, tokens, u, tokens', hstep, hcode, hget, hundo⟩
  rcases h.plain hplain with ⟨hsteady, hrestores⟩
  have hrun : I.step l.cmdline.view l.cmdline.machine = .error e t tokens := by
    rw [h.view_eq hsteady, h.machine_eq]
    exact hstep
  unfold RestoresAt at hrestores hundo
  rw [hrun] at hrestores
  rw [hget] at hundo
  rcases onMachine_error (Nat.le_succ_of_le h.logged) hrun with
    ⟨heads₁, hpushed₁, hmachine₁⟩
  have hstopped := h.stopped hrestores hpushed₁
  rcases onMachine_ok hstopped.logged hget with
    ⟨heads₂, hpushed₂, hmachine₂⟩
  have hstopped' := hstopped.pushed hundo hpushed₂
  have hexchange : SafeExchange
      { l.cmdline with machine := u, undoHeads := heads₂ } (encoded line) :=
    ⟨hsafe.toDiffer, hsafe.pc⟩
  rcases hstopped'.exchange hexchange with
    ⟨front, back, more, heads', s', hsplit, _, hnew, hdiff, hrunning⟩
  have hpass : pass I l = .again
      { cmdline := Cmdline.exchange I (encoded line)
          { l.cmdline with machine := u, undoHeads := heads₂ }
        oldCmdline := l.cmdline.str
        replPc := Completion.stringDiff l.cmdline.str (encoded line) } := by
    unfold Cmdline.pass
    rw [hmachine₁]
    dsimp only
    rw [if_pos hcode]
    unfold exchangeCmdlines
    rw [hmachine₂]
    dsimp only
    rw [if_neg (not_not_intro hold)]
  have hline : line = front ++ more :=
    encoded_inj hvalid hrunning.valid hnew
  have hvalid' := h.valid
  have hstr := h.str
  rw [hsplit] at hvalid' hstr
  exact ⟨_, hpass, rfl, rfl, rfl, front, back, more, heads', s', hvalid', hstr,
    hline, hdiff, hrunning⟩

end

/-!
## Replacing a line
-/

/-- The command `}` is about to be typed behind a text.  The first difference
of the lines is between characters. -/
structure Exchanging (I : Interpreter σ) (s₀ : σ)
    (text rest line : List Gunichar) (heads : Log σ) (s : σ)
    (c : Cmdline σ) : Prop where
  ready : Ready I s₀ text rest heads s c
  valid : ValidText line
  replaces : Replaces I text line s
  differ : Differ (c.inserting I [0x7D]).cmdline.str (encoded line)
  closingPlain : PlainAt I s₀ ((encoded text).length + 1) text closing
  newPlain : Plain I s₀ (encoded line).length
    (Completion.stringDiff (c.inserting I [0x7D]).cmdline.str (encoded line))
    line

/-- The state is that of executing a line from the beginning. -/
def ReExecutes (I : Interpreter σ) (s₀ : σ) (line : List Gunichar)
    (d : Cmdline σ) : Prop :=
  d.str.take d.effectiveLen = encoded line ∧
    exists heads s, Executed I s₀ line heads s ∧ I.Same d.machine s ∧
      forall pos, tokensAt d.undoHeads pos = tokensAt heads pos

section

variable {line : List Gunichar} {c d : Cmdline σ}

theorem Reaches.closing (htext : Executed I s₀ text heads s) :
    Reaches I s₀ text closing heads s []
      (I.setMacroPc (encoded text).length s) :=
  ⟨htext, Steps.nil, by rw [unicharToUtf8_closing]; exact Nat.zero_lt_one⟩

/-- A line that begins with the old one and `}` is never executed. -/
theorem Replaces.not_executed {other : List Gunichar} {heads' : Log σ} {s' : σ}
    (h : Replaces I text line s) (htext : Executed I s₀ text heads s)
    (hother : Executed I s₀ other heads' s')
    (hbegins : text ++ [closing] <+: other) : False := by
  rcases h with ⟨e, t, tokens, u, tokens', hstep, _⟩
  rcases (Reaches.closing htext).step_of_executed hother hbegins with
    ⟨v, tokens'', hok⟩
  rw [List.length_nil, Nat.add_zero, hstep] at hok
  cases hok

namespace Exchanging

/-- The command line in front of which `}` is executed. -/
theorem running (h : Exchanging I s₀ text rest line heads s c) :
    exists rest', Running I s₀ text (closing :: rest') heads s []
        (c.inserting I [0x7D]).cmdline ∧
      (c.inserting I [0x7D]).cmdline.effectiveLen =
        (encoded text).length + 1 := by
  have hvalid : ValidText [closing] := by
    intro chr hchr
    rw [List.mem_singleton.mp hchr]
    decide
  have hbytes : encoded [closing] = [0x7D] := by decide
  rcases h.ready.inserting hvalid with ⟨rest', hrunning, _⟩
  rw [hbytes] at hrunning
  refine ⟨rest', hrunning, ?_⟩
  rw [<- h.ready.effectiveLen]
  unfold Cmdline.inserting putText
  dsimp only
  split <;> rfl

/-- A difference behind `}`. -/
theorem closing_begins (h : Exchanging I s₀ text rest line heads s c)
    (hlt : (encoded text).length <
      Completion.stringDiff (c.inserting I [0x7D]).cmdline.str
        (encoded line)) :
    text ++ [closing] <+: line := by
  rcases h.running with ⟨rest', hrunning, _⟩
  rcases h.differ.front hrunning.valid hrunning.str with
    ⟨front, back, more, hsplit, hvalid, hnew, hdiff⟩
  have hline : line = front ++ more := encoded_inj h.valid hvalid hnew
  have hshort : text ++ [closing] <+: front := by
    have hclosing : text ++ [closing] <+: text ++ closing :: rest' :=
      ⟨rest', by rw [List.append_assoc, List.singleton_append]⟩
    have hfront : front <+: text ++ closing :: rest' :=
      hsplit ▸ List.prefix_append front back
    apply begins_of_length_le hclosing hfront
    rw [<- hdiff, encoded_snoc, unicharToUtf8_closing]
    exact hlt
  rw [hline]
  exact hshort.trans (List.prefix_append front more)

/-- The first pass. -/
theorem exchanged (h : Exchanging I s₀ text rest line heads s c)
    (hle : Completion.stringDiff (c.inserting I [0x7D]).cmdline.str
      (encoded line) ≤ (encoded text).length) :
    exists l, Goes I 1 (c.inserting I [0x7D]) l ∧
      pass I (c.inserting I [0x7D]) = .again l ∧
      NewLine I s₀ (c.inserting I [0x7D]).cmdline.str line l := by
  rcases h.running with ⟨rest', hrunning, heffective⟩
  have hpc : (c.inserting I [0x7D]).cmdline.pc = (encoded text).length :=
    hrunning.pc
  have hsafe : SafeExchange (c.inserting I [0x7D]).cmdline (encoded line) :=
    ⟨h.differ, by rw [hpc]; exact hle⟩
  rcases hrunning.exchanged h.valid (heffective ▸ h.closingPlain) h.replaces
      hsafe rfl with ⟨l, hpass, hnew⟩
  exact ⟨l, Goes.pass (by omega) hpass (Goes.refl l), hpass, hnew⟩

end Exchanging

/-- A line that is executed to its end. -/
theorem Running.completes
    (h : Running I s₀ text behind heads s log l.cmdline)
    (hplain : Plain I s₀ l.cmdline.effectiveLen (encoded text).length
      (text ++ behind))
    (heffective : l.cmdline.effectiveLen = (encoded (text ++ behind)).length)
    (hd : Completes I l d) :
    exists heads' s', Ready I s₀ (text ++ behind) [] heads' s' d := by
  induction hd generalizing text behind heads s log with
  | @done l hnot =>
      have hwithin : Within l.cmdline := by
        constructor
        · refine ⟨text ++ behind, [], ?_, ?_, heffective⟩
          · rw [List.append_nil]
            exact h.valid
          · rw [List.append_nil]
            exact h.str
        · rw [heffective, h.pc, encoded_append, List.length_append]
          apply Nat.add_le_add_left
          cases behind with
          | nil =>
              rw [h.finished rfl]
              exact Nat.zero_le _
          | cons chr behind =>
              have hlt := (h.steps chr behind rfl).1
              rw [encoded_cons, List.length_append]
              omega
      have hready := h.ready hwithin hnot
      have hnil : behind = [] := by
        cases behind with
        | nil => rfl
        | cons chr behind =>
            have heq := hready.effectiveLen.symm.trans heffective
            exact absurd heq (Nat.ne_of_lt length_encoded_lt)
      subst hnil
      rw [List.append_nil]
      exact ⟨heads, s, hready⟩
  | @byte l c d hlt hrun _ ih =>
      have hend : l.cmdline.effectiveLen = l.cmdline.str.length := by
        rw [heffective, h.str]
      rcases h.behind_ne_nil (hend ▸ hlt) with ⟨chr, behind, rfl⟩
      have hbegins : text ++ [chr] <+: text ++ chr :: behind :=
        ⟨behind, by rw [List.append_assoc, List.singleton_append]⟩
      rcases onMachine_eq_ok hrun with ⟨t, tokens, _, hstep, _⟩
      rcases h.executes (hplain text chr (Nat.le_refl _) hbegins) hstep with
        ⟨d', text', behind', heads', s', log', hmachine, _, hlength, _,
          hrunning, hsplit, hlonger⟩
      rw [hrun] at hmachine
      cases hmachine
      rw [<- hlength] at hplain
      rw [<- hsplit] at hplain heffective ⊢
      exact ih hrunning (hplain.later hlonger) (hlength.trans heffective)

end

/-!
## A letter
-/

/-- The register has a line. -/
def recordingOf (line : List Gunichar) : Recording :=
  { done := [], register := encoded line }

/-- The letter `a` has been typed. -/
def letterTyped (line : List Gunichar) : Cmdline Recording :=
  typed [0x61] [[fun _ => recordingOf line]]
    { recordingOf line with done := [0x61] }

theorem letter_exchanging {line : List Gunichar} (hvalid : ValidText line)
    (hdiffer : Differ [0x61, 0x7D] (encoded line)) :
    Exchanging recorder (recordingOf line) [0x61] [] line
      [[fun _ => recordingOf line]] { recordingOf line with done := [0x61] }
      (letterTyped line) := by
  have hplain : forall e text chr,
      PlainAt recorder (recordingOf line) e text chr :=
    plainAt_of_steady recorder_steady recorder_restores
  have hletter : ValidText [0x61] := by
    intro chr hchr
    rw [List.mem_singleton.mp hchr]
    decide
  have hexecuted : Executed recorder (recordingOf line) [0x61]
      [[fun _ => recordingOf line]]
      { recordingOf line with done := [0x61] } :=
    execute_executed hletter rfl
  exact
    { ready := typed_ready hexecuted (fun _ _ _ => hplain _ _ _)
      valid := hvalid
      replaces := ⟨_, _, _, _, _, rfl, rfl, rfl, fun _ hu => hu⟩
      differ := hdiffer
      closingPlain := hplain _ _ _
      newPlain := fun _ _ _ _ => hplain _ _ _ }

theorem letter_differ {chr : Gunichar} (hvalid : ValidText [0x61, chr])
    (hdiff : Completion.stringDiff [0x61, 0x7D] (encoded [0x61, chr]) = 1) :
    Differ [0x61, 0x7D] (encoded [0x61, chr]) where
  inOld := by
    rw [hdiff]
    exact ⟨[0x61], [0x7D], by decide, rfl, rfl⟩
  inNew := by
    rw [hdiff]
    exact ⟨[0x61], [chr], hvalid, rfl, rfl⟩

/-!
## The state of the new line
-/

/-- A replacement that completes has the state of the new line if and only if
the new line does not begin with the old one and `}`. -/
theorem replacement_iff {line : List Gunichar} {c d : Cmdline σ}
    (h : Exchanging I s₀ text rest line heads s c)
    (hpass : pass I (c.inserting I [0x7D]) = .again l)
    (hd : Completes I l d) :
    (exists fuel, insert I fuel [0x7D] c = .ok () d []) ∧
      (ReExecutes I s₀ line d <->
        Completion.stringDiff (c.inserting I [0x7D]).cmdline.str
          (encoded line) ≤ (encoded text).length) := by
  constructor
  · rcases h.running with ⟨rest', hrunning, heffective⟩
    have hpc : (c.inserting I [0x7D]).cmdline.pc = (encoded text).length :=
      hrunning.pc
    rcases hd.insertLoop_eq with ⟨fuel, hfuel⟩
    refine ⟨fuel + 1, ?_⟩
    unfold insert
    rw [if_neg (Nat.not_lt.mpr h.ready.length_le), insertLoop,
      if_pos (by omega), hpass]
    exact hfuel
  · constructor
    · intro hexecutes
      rcases hexecutes with ⟨_, heads', s', hline, _⟩
      apply Nat.le_of_not_lt
      intro hlt
      exact h.replaces.not_executed h.ready.back.executed hline
        (h.closing_begins hlt)
    · intro hle
      rcases h.exchanged hle with ⟨l', _, hpass', hnew⟩
      rw [hpass] at hpass'
      cases hpass'
      rcases hnew.running with
        ⟨front, back, more, heads', s', _, _, hline, hdiff, hrunning⟩
      have hplain := h.newPlain
      have heffective := hnew.effectiveLen
      rw [hdiff, <- heffective] at hplain
      rw [hline] at hplain heffective
      rcases hrunning.completes hplain heffective hd with
        ⟨heads'', s'', hready⟩
      rw [<- hline] at hready
      exact ⟨hready.effective, heads'', s'', hready.back.executed,
        hready.machine,
        hready.back.tokensAt_eq (hready.effectiveLen ▸ hready.logged)⟩

theorem letters_replaced :
    exists l d, pass recorder ((letterTyped [0x61, 0x62]).inserting recorder
        [0x7D]) = .again l ∧ Completes recorder l d ∧
      ReExecutes recorder (recordingOf [0x61, 0x62]) [0x61, 0x62] d := by
  have hvalid : ValidText [0x61, 0x62] := by decide
  have hexchanging :=
    letter_exchanging hvalid (letter_differ hvalid (by decide))
  have hcompletes : exists l d, pass recorder
      ((letterTyped [0x61, 0x62]).inserting recorder [0x7D]) = .again l ∧
        Completes recorder l d := by
    refine ⟨_, _, rfl, Completes.byte ?_ rfl (Completes.done ?_)⟩
    · decide
    · decide
  rcases hcompletes with ⟨l, d, hpass, hd⟩
  exact ⟨l, d, hpass, hd,
    (replacement_iff hexchanging hpass hd).2.mpr (by decide)⟩

/-- `@I/ä/` with the commands that replace it by another line. -/
def umlautKeys : Bytes :=
  [0x40, 0x49, 0x2F, 0xC3, 0xA4, 0x2F, 0x7B, 0x40, 0x15, 0x1B, 0x27,
    0x40, 0x49, 0x2F, 0xC3, 0xB6, 0x2F, 0x27]

/-- `@I/ö/`. -/
def umlautLine : List Gunichar := [0x40, 0x49, 0x2F, 0xF6, 0x2F]

/-- The lines differ in the second byte of a character. -/
theorem umlaut_replaced :
    exists c d, typeKeys Parser.sampleMachine 100 sampleKeys [umlautKeys]
        (empty Parser.sampleStart) = some c ∧
      typeKeys Parser.sampleMachine 100 sampleKeys [[0x7D]] c = some d ∧
      d.str = encoded umlautLine ∧ d.effectiveLen = d.str.length ∧
      ¬ ReExecutes Parser.sampleMachine Parser.sampleStart umlautLine d := by
  have hkeys : (typeKeys Parser.sampleMachine 100 sampleKeys
      [umlautKeys, [0x7D]] (empty Parser.sampleStart)).map (fun d =>
        (d.str, d.effectiveLen, d.machine.editor.world.document)) =
      some (encoded umlautLine, 6,
        [0xC3, 0xA4, 0xFF, 0xBF, 0xBF, 0xBF, 0xBF, 0xBF]) := by
    decide +kernel
  have hline : (Parser.sampleMachine.execute Parser.sampleStart
      umlautLine).map (fun r => r.2.editor.world.document) =
        some [0xC3, 0xB6] := by
    decide +kernel
  rcases Option.map_eq_some_iff.mp hkeys with ⟨d, hrun, hd⟩
  rcases Option.map_eq_some_iff.mp hline with ⟨r, hexecute, hr⟩
  rcases typeKeys_cons hrun with ⟨c, hfirst, hsecond⟩
  rcases Prod.mk.inj hd with ⟨hstr, hd⟩
  rcases Prod.mk.inj hd with ⟨hlength, hdocument⟩
  refine ⟨c, d, hfirst, hsecond, hstr, ?_, ?_⟩
  · rw [hlength, hstr]
    decide
  · intro hexecutes
    rcases hexecutes with ⟨_, heads, s, hexecuted, hsame, _⟩
    have hvalid : ValidText umlautLine := by decide
    rcases hexecuted.unique (execute_executed hvalid hexecute) with ⟨_, rfl⟩
    have hmachine : Parser.sampleMachine.setMacroPc 0 d.machine =
        Parser.sampleMachine.setMacroPc 0 r.2 := hsame
    have hsame' : d.machine.editor.world.document =
        r.2.editor.world.document :=
      congrArg (fun s => s.editor.world.document) hmachine
    rw [hdocument, hr] at hsame'
    exact absurd hsame' (by decide)

end Cmdline
end SciTECO
