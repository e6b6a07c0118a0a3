import SciTECO.Expressions.Rules
import SciTECO.Parser.Coherent
import SciTECO.Parser.Invocation

/-!
# Skipped code

Code that is skipped has no effect on the editor.  There are two exceptions:
some commands print a message in every mode, and an escape character at the end
of a macro discards the arguments in every mode.
-/

namespace SciTECO

open Undoable

/-!
## Discarding arguments
-/

namespace Expressions

variable {s : Expressions}

/-- Without arguments there is nothing to discard, and nothing is resolved. -/
theorem wp_discardArgs_none (h : s.args = 0) :
    wp discardArgs (fun _ t => t = s) (fun _ t => t = s) (fun _ => False)
      s := by
  rcases args_split s with ⟨rest, hops, hrest⟩
  rw [h, List.replicate_zero, List.nil_append] at hops
  rw [<- hops] at hrest
  have hpeek : s.peekOp 0 ≠ some Operator.number := by
    rw [peekOp, <- List.head?_eq_getElem?]
    exact hrest
  unfold discardArgs
  rw [wp_bind]
  rcases resolved_or_pending s.operators with hres | hpending
  · rw [wp_eval_resolved hres, wp_bind, wp_get, h]
    exact rfl
  · rw [wp_eval_pending hpending, wp_calcTop_noRight hpeek]

/-- Operators and arguments have been taken from the stack. -/
def Shrunk (s t : Expressions) : Prop :=
  t.operators.length < s.operators.length

/-- A number is on the top of a stack which has not grown, or the stack has
shrunk. -/
def Shrinking (s t : Expressions) : Prop :=
  s.Shrunk t ∨
    t.operators.head? = some Operator.number ∧
      t.operators.length ≤ s.operators.length

theorem calcTop_shrinks {t : Expressions} (h : s.Shrinking t) :
    wp calcTop (fun _ u => s.Shrunk u) (fun _ u => s.Shrunk u)
      (fun _ => True) t := by
  have hle : t.operators.length ≤ s.operators.length := by
    rcases h with h | h
    · exact Nat.le_of_lt h
    · exact h.2
  rcases top_cases t.operators with
    hops | hops | ⟨op, rest, hops, hleft⟩ | ⟨op, rest, hops, hop⟩ |
    ⟨bop, rest, hops⟩
  · rw [wp_calcTop_noRight
      (by simpa [peekOp, List.head?_eq_getElem?] using hops)]
    rcases h with h | h
    · exact h
    · exact absurd h.1 hops
  · rw [wp_calcTop_single hops]
    rw [hops] at hle
    exact hle
  · rw [wp_calcTop_noLeft hops hleft]
    rw [hops] at hle
    exact Nat.lt_of_lt_of_le (Nat.lt_succ_of_lt (Nat.lt_succ_self _)) hle
  · rw [wp_calcTop_notReached hops hop]
    trivial
  · rw [wp_calcTop_real hops]
    have hdrop := dropNew_length_le rest
    rw [hops] at hle
    simp only [List.length_cons] at hle
    split
    · change (Operator.number :: dropNew rest).length < _
      rw [List.length_cons]
      omega
    · change rest.length < _
      omega
    · trivial

theorem eval_shrinks (h : s.Shrinking s) :
    wp (eval false) (fun _ t => s.Shrinking t ∧ Resolved t.operators)
      (fun _ t => s.Shrunk t) (fun _ => True) s := by
  apply wp_eval_of_invariant (fun t => s.Shrinking t) h
  · intro t ht _
    apply wp_call (calcTop_shrinks ht)
    intro _ u hu
    exact Or.inl hu
  · intro t ht hres
    exact ⟨ht, hres⟩

/-- Arguments are removed, together with the operators in front of them. -/
theorem wp_discardArgs_some (h : s.args ≠ 0) :
    wp discardArgs (fun _ t => s.Shrunk t) (fun _ t => s.Shrunk t)
      (fun _ => True) s := by
  rcases args_split s with ⟨rest, hops, _⟩
  have hhead : s.operators.head? = some Operator.number := by
    rcases Nat.exists_eq_succ_of_ne_zero h with ⟨k, hk⟩
    rw [hops, hk]
    rfl
  apply wp_discardArgs
  apply wp_call (eval_shrinks (Or.inr ⟨hhead, Nat.le_refl _⟩))
  rintro _ t ⟨ht, hres⟩
  refine ⟨hres, ?_⟩
  intro rest' hops' hrest'
  change rest'.length < _
  have hlength := congrArg List.length hops'
  rw [List.length_append, List.length_replicate] at hlength
  rcases ht with ht | ⟨hnumber, hle⟩
  · change t.operators.length < _ at ht
    omega
  · have hargs : t.args ≠ 0 := by
      intro hzero
      rw [hzero, List.replicate_zero, List.nil_append] at hops'
      rw [hops'] at hnumber
      exact hrest' hnumber
    omega

theorem Shrunk.ne {t : Expressions} (h : s.Shrunk t) : t ≠ s := by
  intro heq
  rw [heq] at h
  exact Nat.lt_irrefl _ h

/-- Discarding arguments has no effect if there are none. -/
theorem discardArgs_same_iff :
    wp discardArgs (fun _ t => t = s) (fun _ t => t = s) (fun _ => False) s <->
      s.args = 0 := by
  constructor
  · intro h
    by_contra hargs
    have hsome := wp_discardArgs_some hargs
    unfold wp at h hsome
    cases hrun : discardArgs s with
    | ok _ t tokens =>
        rw [hrun] at h hsome
        exact Shrunk.ne hsome h
    | error e t tokens =>
        rw [hrun] at h hsome
        exact Shrunk.ne hsome h
    | fault c =>
        rw [hrun] at h
        exact h
  · exact wp_discardArgs_none

end Expressions

namespace Parser

variable {W Reg : Type} {host : Host W Reg} {env : Env} {s : State W Reg}
  {chr : Gunichar}

/-!
## Messages
-/

/-- The only thing that has been done is to print a message. -/
def Prints (s t : State W Reg) : Prop :=
  exists message, t.editor =
    { s.editor with messages := message :: s.editor.messages }

theorem prints_interfaceMsg {t : State W Reg} (severity : Severity)
    (text : Bytes) (h : t.editor = s.editor) :
    Prints s (t.mapEditor (fun e =>
      { e with
        messages := { severity := severity, text := text } ::
          e.messages })) := by
  refine ⟨{ severity := severity, text := text }, ?_⟩
  rw [<- h]
  rfl

/-- `^A` prints its string without looking at the mode. -/
theorem wp_finishString_print (hwf : s.WellFormed) :
    wp (finishString host env .printString)
      (fun next t => next = MainState.start ∧ Prints s t)
      (fun _ _ => False) (fun _ => False) s := by
  have hprocess : wp (stringProcess host env .printString)
      (fun _ t => t = s) (fun _ _ => False) (fun _ => False) s := by
    unfold stringProcess
    rw [wp_bind, wp_get]
    dsimp only
    rw [wp_ite]
    split
    · exact rfl
    · exact rfl
  unfold finishString
  rw [wp_bind]
  apply wp_call hprocess
  intro _ t ht
  rw [ht, wp_bind, wp_get, wp_ensuring]
  unfold stringDone
  rw [wp_bind, wp_interfaceMsg, wp_pure]
  have hprints := prints_interfaceMsg (t := s) Severity.user
    s.machine.expectstring.string rfl
  apply wp_call (wp_resetString .printString
    (s := s.mapEditor _) hwf)
  rintro _ t ⟨_, _, _, _, heditor, _⟩
  refine ⟨rfl, ?_⟩
  unfold Prints
  rw [heditor]
  exact hprints

theorem wp_expectstringInput_print (hwf : s.WellFormed)
    (hends : s.toSyntax.EndsString host.glib.toUpper chr) :
    wp (expectstringInput host env .printString chr)
      (fun next t => next = MainState.start ∧ Prints s t)
      (fun _ _ => False) (fun _ => False) s := by
  have hat : s.machine.flags.modifierAt = false := hends.1
  have hsame : s.mapFlags (fun f => { f with modifierAt := false }) = s := by
    simp only [State.mapFlags, <- hat]
  unfold expectstringInput
  rw [wp_bind, wp_get, hat, if_neg (by simp), wp_bind, wp_evalAt, hat, hsame]
  simp only [Bool.false_eq_true, if_false]
  rw [wp_bind, wp_countNesting, wp_bind, wp_get, wp_ite, if_pos]
  · exact wp_finishString_print (s := s.withNesting _) hwf
  · exact hends.2

/-- The end of a label prints a warning in every mode, too. -/
theorem wp_labelInput_print (hlabel : s.machine.gotoLabel ≠ [])
    (hredefines : s.redefinesLabel) :
    wp (labelInput env '!'.toNat)
      (fun next t => next = MainState.start ∧ Prints s t)
      (fun _ _ => False) (fun _ => False) s := by
  rcases hredefines with ⟨pc, hfind, hpc⟩
  unfold labelInput
  rw [wp_bind, wp_get, if_neg (fun h => hlabel h.1),
    if_neg (fun h => hlabel h.1), if_pos rfl, wp_bind]
  unfold labelDone
  rw [wp_bind, wp_get]
  dsimp only
  rw [hfind]
  dsimp only
  rw [if_pos hpc, wp_interfaceMsg]
  simp only [wp_bind, wp_undo, wp_modify, wp_pure]
  exact ⟨trivial, prints_interfaceMsg (t := s) _ _ rfl⟩

variable [DecidableEq Reg]

theorem wp_stateInput_print (hwf : s.WellFormed) (h : Speaks host s chr) :
    wp (stateInput host env s.machine.current chr)
      (fun next t => next = MainState.start ∧ Prints s t)
      (fun _ _ => False) (fun _ => False) s := by
  rcases h with ⟨hcurrent, hends⟩ | ⟨hcurrent, hchr, hlabel, hredefines⟩
  · rw [hcurrent]
    exact wp_expectstringInput_print hwf hends
  · rw [hcurrent, hchr]
    exact wp_labelInput_print hlabel hredefines

/-- A command that speaks prints a message. -/
theorem wp_machineInput_print (hwf : s.WellFormed) (h : Speaks host s chr) :
    wp (machineInput host env chr) (fun _ t => Prints s t)
      (fun _ _ => False) (fun _ => False) s := by
  unfold machineInput
  rw [wp_bind, wp_get, wp_bind]
  apply wp_call (wp_stateInput_print hwf h)
  rintro _ t ⟨rfl, ht⟩
  unfold enterState
  rw [wp_bind, wp_get, wp_ite]
  split
  · exact ht
  · simp only [wp_bind, wp_undo, wp_modify]
    exact ht

/-- Other code that is skipped leaves the editor alone. -/
theorem wp_machineInput_silent (h : Coherent s) (hmode : s.mode ≠ Mode.normal)
    (hsilent : ¬ Speaks host s chr) :
    wp (machineInput host env chr) (fun _ t => t.editor = s.editor)
      (fun _ t => t.editor = s.editor) (fun _ => True) s := by
  have hzero := h.skipped hmode
  apply wp_mono (wp_machineInput chr h.wellFormed
    (fun _ => processes_of_insertLen hzero))
  · rintro _ t ⟨_, _, _, hkept⟩
    exact ((hkept hmode).2 ⟨hzero, hsilent⟩).2
  · intro _ t ht
    exact (ht hmode).2 ⟨hzero, hsilent⟩
  · intro _ _
    trivial

/-!
## Characters of a text
-/

/-- The next character of a text. -/
def State.nextChar (text : Bytes) (s : State W Reg) : Gunichar :=
  utf8GetChar (text.drop s.machine.macroPc)

theorem stepCharacter_ok {text : Bytes} {t : State W Reg}
    {tokens : List (State W Reg -> State W Reg)}
    (h : stepCharacter host env text s = .ok () t tokens) :
    machineInput host env (s.nextChar text) (s.fetch text) =
      .ok () t tokens := by
  rcases bind_ok h with ⟨_, _, earlier, later, hget, hrest, htokens⟩
  cases hget
  cases hcheck : host.check s.editor with
  | some e =>
      rw [hcheck] at hrest
      cases hrest
  | none =>
      rw [hcheck] at hrest
      rcases bind_ok hrest with ⟨_, _, _, _, hmodify, hinput, heq⟩
      cases hmodify
      rw [htokens, heq, List.append_nil, List.append_nil]
      exact hinput

omit [DecidableEq Reg] in
theorem coherent_fetch (text : Bytes) (h : Coherent s) :
    Coherent (s.fetch text) where
  wellFormed := h.wellFormed
  label := h.label
  skipped := h.skipped
  outside := h.outside

omit [DecidableEq Reg] in
/-- What is left to be processed at the end of a text. -/
theorem coherent_stateRefresh (h : Coherent s) :
    wp (stateRefresh host env s.machine.current)
      (fun _ t => Coherent t ∧ t.machine.expectstring.insertLen = 0 ∧
        (s.mode ≠ Mode.normal -> t.editor = s.editor))
      (fun _ _ => True) (fun _ => True) s := by
  unfold stateRefresh
  split
  case h_1 cmd hcurrent =>
      unfold expectstringRefresh
      rw [wp_bind, wp_get, wp_bind]
      apply wp_mono (wp_stringProcess cmd)
      · rintro _ t ⟨_, hplaced, hsame⟩
        have hfixed : t.fixed = s.fixed := congrArg Prod.fst hplaced
        have hmode : t.mode = s.mode := congrArg (fun p => p.2.1) hplaced
        have hwf := wellFormed_of_fixed h.wellFormed hfixed
        simp only [wp_bind, wp_undo, wp_modify]
        refine ⟨⟨hwf, ?_, fun _ => rfl, fun _ => rfl⟩, rfl, ?_⟩
        · intro hlabel
          have hsame : t.gotoSkipLabel = s.gotoSkipLabel :=
            congrArg Prod.snd hfixed
          apply hmode.trans (h.label _)
          exact fun hnil => hlabel (hsame.trans hnil)
        · intro hskip
          rw [hsame (h.skipped hskip)]
          rfl
      · intro _ _ _
        trivial
      · intro _ _
        trivial
  case h_2 hcurrent =>
      exact ⟨h, h.outside hcurrent, fun _ => rfl⟩

omit [DecidableEq Reg] in
/-- Behind a `:O` command whose label is missing. -/
theorem coherent_continueAt (pc : Nat) (h : Coherent s)
    (hzero : s.machine.expectstring.insertLen = 0) :
    wp (continueAt env pc) (fun _ t => Coherent t) (fun _ _ => True)
      (fun _ => True) s := by
  unfold continueAt
  simp only [wp_bind, wp_modify, wp_clearGotoSkipLabel, wp_setMode]
  refine ⟨h.wellFormed, ?_, fun _ => hzero, fun _ => hzero⟩
  intro hlabel
  exact absurd rfl hlabel

/-- The states of a machine, in any order of characters, refreshs and
continuations behind missing labels. -/
inductive Reached (host : Host W Reg) : State W Reg -> Prop where
  | init {s : State W Reg} (loopStackFp codepage : Nat)
      (hmachine : s.machine = Machine.init loopStackFp codepage)
      (hlabel : s.gotoSkipLabel = []) : Reached host s
  | character {s t : State W Reg} (env : Env) (text : Bytes)
      (tokens : List (State W Reg -> State W Reg)) (hs : Reached host s)
      (hrun : stepCharacter host env text s = .ok () t tokens) :
      Reached host t
  | refresh {s t : State W Reg} (env : Env)
      (tokens : List (State W Reg -> State W Reg)) (hs : Reached host s)
      (hrun : stateRefresh host env s.machine.current s = .ok () t tokens) :
      Reached host t
  | again {s t u : State W Reg} (env : Env) (pc : Nat)
      (tokens tokens' : List (State W Reg -> State W Reg))
      (hs : Reached host s)
      (hrefresh : stateRefresh host env s.machine.current s =
        .ok () t tokens)
      (hrun : continueAt env pc t = .ok () u tokens') : Reached host u

theorem Reached.coherent (h : Reached host s) : Coherent s := by
  induction h with
  | init loopStackFp codepage hmachine hlabel =>
      exact coherent_init loopStackFp codepage hmachine hlabel
  | character env text tokens _ hrun ih =>
      exact wp_ok (coherent_machineInput _ (coherent_fetch text ih))
        (stepCharacter_ok hrun)
  | refresh env tokens _ hrun ih =>
      exact (wp_ok (coherent_stateRefresh ih) hrun).1
  | again env pc tokens tokens' _ hrefresh hrun ih =>
      rcases wp_ok (coherent_stateRefresh ih) hrefresh with ⟨ht, hzero, _⟩
      exact wp_ok (coherent_continueAt pc ht hzero) hrun

/-!
## Skipping
-/

/-- The modes of inactive branches, of loops and of jumps to a label. -/
def Mode.ParseOnly (mode : Mode) : Prop :=
  mode ≠ Mode.normal ∧ mode ≠ Mode.lexing

instance (mode : Mode) : Decidable mode.ParseOnly :=
  inferInstanceAs (Decidable (_ ∧ _))

/-- A machine skips code.  It is listed in which state it reads which
character. -/
inductive Skips (host : Host W Reg) :
    State W Reg -> List (State W Reg × Gunichar) -> State W Reg -> Prop where
  | here {s : State W Reg} (hmode : s.mode.ParseOnly) : Skips host s [] s
  | character {s t u : State W Reg} {reads : List (State W Reg × Gunichar)}
      (env : Env) (text : Bytes) (tokens : List (State W Reg -> State W Reg))
      (hmode : s.mode.ParseOnly)
      (hrun : stepCharacter host env text s = .ok () t tokens)
      (hskips : Skips host t reads u) :
      Skips host s ((s.fetch text, s.nextChar text) :: reads) u
  | refresh {s t u : State W Reg} {reads : List (State W Reg × Gunichar)}
      (env : Env) (tokens : List (State W Reg -> State W Reg))
      (hmode : s.mode.ParseOnly)
      (hrun : stateRefresh host env s.machine.current s = .ok () t tokens)
      (hskips : Skips host t reads u) : Skips host s reads u

/-- A character that speaks has been read. -/
def SpeaksIn (host : Host W Reg) (reads : List (State W Reg × Gunichar)) :
    Prop :=
  exists read, read ∈ reads ∧ Speaks host read.1 read.2

/-- Either nothing speaks and the editor is the same, or there are more messages
than before. -/
def Effect (host : Host W Reg) (reads : List (State W Reg × Gunichar))
    (s t : State W Reg) : Prop :=
  ¬ SpeaksIn host reads ∧ t.editor = s.editor ∨
    SpeaksIn host reads ∧
      s.editor.messages.length < t.editor.messages.length

omit [DecidableEq Reg] in
theorem Effect.messages {reads : List (State W Reg × Gunichar)}
    {s t : State W Reg} (h : Effect host reads s t) :
    s.editor.messages.length ≤ t.editor.messages.length := by
  rcases h with ⟨_, heditor⟩ | ⟨_, hlt⟩
  · rw [heditor]
  · exact Nat.le_of_lt hlt

theorem Skips.effect {reads : List (State W Reg × Gunichar)}
    {s t : State W Reg} (h : Skips host s reads t) (hs : Coherent s) :
    Effect host reads s t := by
  induction h with
  | here _ =>
      left
      constructor
      · rintro ⟨_, hmem, _⟩
        cases hmem
      · rfl
  | @character s t u reads env text tokens hmode hrun _ ih =>
      have hfetch := coherent_fetch text hs
      have hinput := stepCharacter_ok hrun
      have hrest := ih (wp_ok (coherent_machineInput _ hfetch) hinput)
      by_cases hspeaks : Speaks host (s.fetch text) (s.nextChar text)
      · right
        constructor
        · exact ⟨_, List.mem_cons_self, hspeaks⟩
        · rcases wp_ok (wp_machineInput_print hfetch.wellFormed hspeaks)
            hinput with ⟨message, heditor⟩
          have hle := hrest.messages
          rw [heditor, List.length_cons] at hle
          exact hle
      · have hsilent := wp_ok
          (wp_machineInput_silent hfetch hmode.1 hspeaks) hinput
        have heditor : t.editor = s.editor := hsilent
        have hiff : SpeaksIn host ((s.fetch text, s.nextChar text) :: reads)
            <-> SpeaksIn host reads := by
          constructor
          · rintro ⟨read, hmem, hread⟩
            rcases List.mem_cons.mp hmem with rfl | hmem
            · exact absurd hread hspeaks
            · exact ⟨read, hmem, hread⟩
          · rintro ⟨read, hmem, hread⟩
            exact ⟨read, List.mem_cons_of_mem _ hmem, hread⟩
        unfold Effect
        rw [hiff, <- heditor]
        exact hrest
  | @refresh s t u reads env tokens hmode hrun _ ih =>
      rcases wp_ok (coherent_stateRefresh hs) hrun with ⟨ht, _, hsame⟩
      have heditor := hsame hmode.1
      have hrest := ih ht
      unfold Effect at hrest ⊢
      rw [<- heditor]
      exact hrest

/-!
## The end of a macro
-/

/-- The expression stacks, the messages and everything that belongs to the host
are the same. -/
structure Unaffected (s t : State W Reg) : Prop where
  expr : t.editor.expr = s.editor.expr
  messages : t.editor.messages = s.editor.messages
  world : t.editor.world = s.editor.world

/-- The macro ends behind an escape character, in front of which there are
arguments. -/
structure DiscardsAtEnd (s : State W Reg) : Prop where
  found : s.gotoSkipLabel = []
  closed : s.editor.loopStack.length ≤ s.machine.loopStackFp
  escape : s.machine.current = MainState.escape
  args : s.editor.expr.args ≠ 0

omit [DecidableEq Reg] in
theorem Unaffected.of_editor {s t : State W Reg} (h : t.editor = s.editor) :
    Unaffected s t :=
  ⟨by rw [h], by rw [h], by rw [h]⟩

/-- The end of a macro has an effect in the expected case and behind an escape
character. -/
def EndsInert (env : Env) (s : State W Reg) : Prop :=
  wp (endOfMacro env) (fun _ t => Unaffected s t) (fun _ t => Unaffected s t)
    (fun _ => False) s

omit [DecidableEq Reg] in
theorem wp_discardArgs_inert :
    wp (stateEndOfMacro env MainState.escape : Exec (State W Reg) Unit)
        (fun _ t => Unaffected s t) (fun _ t => Unaffected s t)
        (fun _ => False) s <->
      wp Expressions.discardArgs (fun _ e => e = s.editor.expr)
        (fun _ e => e = s.editor.expr) (fun _ => False) s.editor.expr := by
  have hinert (e : Expressions) :
      Unaffected s (exprLens.set e s) <-> e = s.editor.expr := by
    constructor
    · exact fun h => h.expr
    · exact fun h => ⟨h, rfl, rfl⟩
  change wp (zoom exprLens Expressions.discardArgs) _ _ _ s <-> _
  rw [wp_zoom]
  simp only [hinert]
  exact Iff.rfl

omit [DecidableEq Reg] in
theorem wp_stateEndOfMacro_skipped (hmode : s.mode ≠ Mode.normal)
    (hcurrent : s.machine.current ≠ MainState.escape) :
    wp (stateEndOfMacro env s.machine.current) (fun _ t => t = s)
      (fun _ t => t = s) (fun _ => False) s := by
  have hprint (radix : Nat) : wp (printEndOfMacro env radix)
      (fun _ t => t = s) (fun _ t => t = s) (fun _ => False) s := by
    unfold printEndOfMacro
    rw [wp_bind, wp_get, if_pos (Or.inl hmode)]
    exact rfl
  unfold stateEndOfMacro
  split
  case h_1 => exact rfl
  case h_2 => exact rfl
  case h_3 heq => exact absurd heq hcurrent
  case h_4 => exact hprint 10
  case h_5 => exact hprint 8
  case h_6 => exact rfl

omit [DecidableEq Reg] in
theorem endsInert_iff (hmode : s.mode ≠ Mode.normal) :
    EndsInert env s <-> ¬ DiscardsAtEnd s := by
  unfold EndsInert endOfMacro
  rw [wp_bind, wp_get, wp_ite]
  split
  case isTrue hlabel =>
      constructor
      · exact fun _ h => hlabel h.found
      · exact fun _ => Unaffected.of_editor rfl
  case isFalse hlabel =>
      rw [wp_ite]
      split
      case isTrue hopen =>
          constructor
          · exact fun _ h => absurd h.closed (Nat.not_le.mpr hopen)
          · exact fun _ => Unaffected.of_editor rfl
      case isFalse hclosed =>
          by_cases hcurrent : s.machine.current = MainState.escape
          · rw [hcurrent]
            have hdiscard : wp (stateEndOfMacro env MainState.escape)
                (fun _ t => Unaffected s t) (fun _ t => Unaffected s t)
                (fun _ => False) s <-> s.editor.expr.args = 0 := by
              rw [<- Expressions.discardArgs_same_iff]
              exact wp_discardArgs_inert
            rw [hdiscard]
            constructor
            · exact fun hargs h => h.args hargs
            · intro h
              by_contra hargs
              exact h ⟨not_not.mp hlabel, Nat.not_lt.mp hclosed, hcurrent,
                hargs⟩
          · constructor
            · exact fun _ h => hcurrent h.escape
            · intro _
              apply wp_mono (wp_stateEndOfMacro_skipped hmode hcurrent)
              · intro _ t ht
                exact Unaffected.of_editor (congrArg State.editor ht)
              · intro _ t ht
                exact Unaffected.of_editor (congrArg State.editor ht)
              · exact fun _ h => h

theorem Skips.parseOnly {reads : List (State W Reg × Gunichar)}
    {s t : State W Reg} (h : Skips host s reads t) : t.mode.ParseOnly := by
  induction h with
  | here hmode => exact hmode
  | character _ _ _ _ _ _ ih => exact ih
  | refresh _ _ _ _ _ ih => exact ih

/-- Code that is skipped has no effect, up to the end of the macro, unless a
character speaks or arguments are discarded at the end. -/
theorem skips_inert_iff {reads : List (State W Reg × Gunichar)}
    {s t : State W Reg} (hs : Reached host s) (h : Skips host s reads t) :
    Unaffected s t ∧ EndsInert env t <->
      ¬ SpeaksIn host reads ∧ ¬ DiscardsAtEnd t := by
  rw [endsInert_iff h.parseOnly.1]
  apply and_congr_left'
  rcases h.effect hs.coherent with ⟨hsilent, heditor⟩ | ⟨hspeaks, hlt⟩
  · exact ⟨fun _ => hsilent, fun _ => Unaffected.of_editor heditor⟩
  · constructor
    · intro hinert
      rw [hinert.messages] at hlt
      exact absurd hlt (Nat.lt_irrefl _)
    · exact fun hsilent => absurd hspeaks hsilent

theorem reached_sampleSteps (text : Bytes) (count : Nat) :
    Reached sampleHost (sampleSteps text count) := by
  induction count with
  | zero => exact Reached.init 0 codepageUtf8 rfl rfl
  | succ count ih =>
      unfold sampleSteps
      dsimp only
      cases hrun : stepCharacter sampleHost (sampleEnv text text.length 0)
          text (sampleSteps text count) with
      | ok _ t tokens => exact Reached.character _ text tokens ih hrun
      | error e t tokens => exact ih
      | fault c => exact ih

/-- The beginning of an insertion in an inactive branch. -/
def inactiveText : Bytes := utf8 "0\"NIx"

theorem skips_inert_insert :
    Unaffected (sampleSteps inactiveText 3) (sampleSteps inactiveText 5) ∧
      EndsInert (sampleEnv [] 0 0) (sampleSteps inactiveText 5) := by
  have hfirst : exists tokens,
      stepCharacter sampleHost (sampleEnv inactiveText inactiveText.length 0)
        inactiveText (sampleSteps inactiveText 3) =
      .ok () (sampleSteps inactiveText 4) tokens := ⟨_, rfl⟩
  have hsecond : exists tokens,
      stepCharacter sampleHost (sampleEnv inactiveText inactiveText.length 0)
        inactiveText (sampleSteps inactiveText 4) =
      .ok () (sampleSteps inactiveText 5) tokens := ⟨_, rfl⟩
  have hmode (count : Nat)
      (h : (sampleSteps inactiveText count).mode = Mode.parseOnlyCond) :
      (sampleSteps inactiveText count).mode.ParseOnly := by
    rw [h]
    decide
  rcases hfirst with ⟨tokens, hfirst⟩
  rcases hsecond with ⟨tokens', hsecond⟩
  have hskips := Skips.character _ _ _ (hmode 3 rfl) hfirst
    (Skips.character _ _ _ (hmode 4 rfl) hsecond
      (Skips.here (hmode 5 rfl)))
  rw [skips_inert_iff (reached_sampleSteps _ 3) hskips]
  have hstate (read : State SampleWorld SampleReg × Gunichar)
      (hprint : read.1.machine.current ≠ .expectstring .printString)
      (hlabel : read.1.machine.current ≠ .label) :
      ¬ Speaks sampleHost read.1 read.2 := by
    intro hspeaks
    rcases hspeaks with hends | hredefines
    · exact hprint hends.1
    · exact hlabel hredefines.1
  constructor
  · intro hspeaks
    rcases hspeaks with ⟨read, hmem, hread⟩
    rcases List.mem_cons.mp hmem with rfl | hmem
    · exact hstate _ (by decide) (by decide) hread
    · rw [List.mem_singleton.mp hmem] at hread
      exact hstate _ (by decide) (by decide) hread
  · exact fun h => absurd h.escape (by decide)

end Parser
end SciTECO
