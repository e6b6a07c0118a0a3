import SciTECO.Parser.Coherent
import SciTECO.Parser.Escaping
import SciTECO.Parser.Flow

/-!
# Jumps

The execution goes on at another position by the commands of loops and by `O`
only.  They jump to the beginning of a loop of the invocation, to the beginning
of the macro or behind a label.
-/

namespace SciTECO
namespace Parser

open Undoable
open QReg (Table)

variable {W Reg : Type} {host : Host W Reg} {env : Env}

/-!
## Loops
-/

namespace Flow

/-- Where the loops of the invocation begin. -/
def loopPcs (f : Flow) : List Nat :=
  (f.loops.map LoopContext.pc).take (f.loops.length - f.fp)

/-- The commands of loops jump to the beginning of a loop or of the macro.  A
new loop begins at the current position. -/
structure Steers (f g : Flow) : Prop where
  rest : g = { f with pc := g.pc, loops := g.loops }
  pc : g.pc = f.pc ∨ g.pc = 0 ∨ g.pc ∈ f.loopPcs
  loops : forall p, p ∈ g.loopPcs -> p = f.pc ∨ p ∈ f.loopPcs

theorem Steers.refl (f : Flow) : f.Steers f :=
  ⟨rfl, Or.inl rfl, fun _ hp => Or.inr hp⟩

theorem loopPcs_cons (f : Flow) (loop : LoopContext) (p : Nat)
    (h : p ∈ { f with loops := loop :: f.loops }.loopPcs) :
    p = loop.pc ∨ p ∈ f.loopPcs := by
  unfold loopPcs at h ⊢
  rw [List.length_cons, List.map_cons] at h
  by_cases hfp : f.fp ≤ f.loops.length
  · rw [Nat.succ_sub hfp, List.take_succ_cons] at h
    exact List.mem_cons.mp h
  · rw [Nat.sub_eq_zero_of_le (Nat.lt_of_not_le hfp)] at h
    cases h

theorem loopPcs_tail (f : Flow) (p : Nat)
    (h : p ∈ { f with loops := f.loops.tail }.loopPcs) :
    p ∈ f.loopPcs := by
  unfold loopPcs at h ⊢
  cases hloops : f.loops with
  | nil =>
      rw [hloops] at h
      exact h
  | cons loop loops =>
      dsimp only at h
      rw [hloops, List.tail_cons] at h
      rw [List.length_cons, List.map_cons]
      by_cases hfp : f.fp ≤ loops.length
      · rw [Nat.succ_sub hfp, List.take_succ_cons]
        exact List.mem_cons_of_mem _ h
      · rw [Nat.sub_eq_zero_of_le (Nat.le_of_not_le hfp)] at h
        cases h

/-- The counter of a loop is no concern. -/
theorem loopPcs_modify (f : Flow) (index : Nat)
    (change : LoopContext -> LoopContext)
    (hpc : forall loop, (change loop).pc = loop.pc) :
    { f with loops := f.loops.modify index change }.loopPcs = f.loopPcs := by
  unfold loopPcs
  dsimp only
  have hmap : (f.loops.modify index change).map LoopContext.pc =
      f.loops.map LoopContext.pc := by
    apply List.ext_getElem
    · rw [List.length_map, List.length_map, List.length_modify]
    · intro i _ _
      rw [List.getElem_map, List.getElem_map, List.getElem_modify]
      split
      · exact hpc _
      · rfl
  rw [hmap, List.length_modify]

end Flow

/-- The computation steers as the commands of loops do. -/
def Steered {α : Type} (m : Exec (State W Reg) α) : Prop :=
  forall s, wp m (fun _ t => s.flow.Steers t.flow) (fun _ _ => True)
    (fun _ => True) s

namespace Steered

variable {α β : Type} {m : Exec (State W Reg) α}

theorem of_keeps (h : Keeps State.flow m) : Steered m := by
  intro s
  apply wp_call (h s)
  intro _ t ht
  show s.flow.Steers t.flow
  rw [ht]
  exact Flow.Steers.refl _

theorem after {g : α -> Exec (State W Reg) β} (hm : Keeps State.flow m)
    (hg : forall a, Steered (g a)) : Steered (m >>= g) := by
  intro s
  rw [wp_bind]
  apply wp_call (hm s)
  intro a t ht
  rw [<- ht]
  exact hg a t

theorem ite {c : Prop} [Decidable c] {n : Exec (State W Reg) α}
    (hm : Steered m) (hn : Steered n) : Steered (if c then m else n) := by
  split
  · exact hm
  · exact hn

theorem andThen {g : α -> Exec (State W Reg) β} (hm : Steered m)
    (hg : forall a, Keeps State.flow (g a)) : Steered (m >>= g) := by
  intro s
  rw [wp_bind]
  apply wp_call (hm s)
  intro a t ht
  apply wp_call (hg a t)
  intro _ u hu
  show s.flow.Steers u.flow
  rw [hu]
  exact ht

end Steered

theorem keepsFlow_loopCloseArgs (loop : LoopContext) (colonModified : Bool) :
    Keeps State.flow
      (loopCloseArgs loop colonModified : Exec (State W Reg) Unit) := by
  apply Keeps.ite (Keeps.pure ())
  apply Keeps.ite
  · apply Keeps.bind (keepsFlow_onExpr _)
    intro _
    exact Keeps.ite (keepsFlow_onExpr _) (Keeps.pure ())
  · apply Keeps.bind (keepsFlow_onExpr _)
    intro _
    exact Keeps.ite (keepsFlow_onExpr _) (Keeps.pure ())

theorem steered_loopOpen :
    Steered (loopOpen env : Exec (State W Reg) Unit) := by
  have hpush (braceLevel : Nat) (counter : TecoInt) (passThrough : Bool) :
      Steered (do
        let s <- get
        let loop : LoopContext :=
          { counter := counter
            pc := s.machine.macroPc
            braceLevel := braceLevel
            passThrough := passThrough }
        setLoopStack (loop :: s.editor.loopStack)
        emit (removeLoop s.editor.loopStack.length) :
        Exec (State W Reg) Unit) := by
    intro s
    rw [wp_bind, wp_get]
    unfold setLoopStack
    rw [wp_bind, wp_modify, wp_emit]
    refine ⟨rfl, Or.inl rfl, ?_⟩
    intro p hp
    exact Flow.loopPcs_cons s.flow _ p hp
  apply Steered.after (keepsFlow_onExpr _)
  intro counter
  apply Steered.after Keeps.get
  intro s
  apply Steered.after keepsFlow_evalColon
  intro colon
  dsimp only
  split
  · split
    · exact hpush _ _ _
    · apply Steered.after (keepsFlow_onExpr _)
      intro _
      exact hpush _ _ _
  · exact Steered.of_keeps (keepsFlow_setMode _)

theorem mem_loopPcs {s : State W Reg} {loop : LoopContext}
    {own : List LoopContext} (h : s.ownLoops = loop :: own) :
    loop.pc ∈ s.flow.loopPcs := by
  have hmem : loop ∈ s.ownLoops := by
    rw [h]
    exact List.mem_cons_self
  unfold Flow.loopPcs
  rw [<- List.map_take]
  exact List.mem_map_of_mem hmem

theorem steered_loopClose :
    Steered (loopClose env : Exec (State W Reg) Unit) := by
  intro s
  unfold loopClose
  rw [wp_bind, wp_get]
  split
  case h_1 => trivial
  case h_2 loop own hown =>
      by_cases hbrace : s.editor.expr.braceLevel ≠
          loop.braceLevel + (if loop.passThrough then 0 else 1)
      · rw [if_pos hbrace]
        trivial
      · rw [if_neg hbrace, wp_bind]
        apply wp_call (keepsFlow_evalColon s)
        intro colon t ht
        rw [wp_bind]
        apply wp_call (keepsFlow_loopCloseArgs loop (0 < colon) t)
        intro _ u hu
        have hflow : u.flow = s.flow := hu.trans ht
        dsimp only
        rw [wp_bind, wp_get]
        have hjump : loop.pc ∈ s.flow.loopPcs := mem_loopPcs hown
        rw [<- hflow] at hjump ⊢
        rw [wp_ite]
        split
        · unfold setLoopStack
          rw [wp_bind, wp_emit, wp_modify]
          exact ⟨rfl, Or.inl rfl,
            fun p hp => Or.inr (Flow.loopPcs_tail u.flow p hp)⟩
        · rw [wp_bind, wp_modify, wp_ite]
          split
          · exact ⟨rfl, Or.inr (Or.inr hjump), fun p hp => Or.inr hp⟩
          · rw [wp_bind, wp_undo, wp_modify]
            refine ⟨rfl, Or.inr (Or.inr hjump), ?_⟩
            intro p hp
            right
            have hpcs := Flow.loopPcs_modify u.flow
              (u.editor.loopStack.length - 1 -
                (u.editor.loopStack.length - 1))
              (fun l => { l with counter := loop.counter - 1 })
              (fun _ => rfl)
            rw [<- hpcs]
            exact hp

theorem steered_loopBreak (hhost : host.Nests False env) :
    Steered (loopBreak host env) := by
  have hpop : Steered (do
      let s <- get
      setLoopStack s.editor.loopStack.tail : Exec (State W Reg) Unit) := by
    intro s
    unfold setLoopStack
    rw [wp_bind, wp_get, wp_modify]
    exact ⟨rfl, Or.inl rfl,
      fun p hp => Or.inr (Flow.loopPcs_tail s.flow p hp)⟩
  apply Steered.after Keeps.get
  intro s
  split
  · exact Steered.of_keeps (Keeps.throw _)
  case h_2 loop own _ =>
      split
      · exact Steered.of_keeps (Keeps.fault _)
      · apply Steered.after
          (keepsFlow_editor (hhost.reads.getInteger _))
        intro v
        apply Steered.after (keepsFlow_onExpr _)
        intro rc
        apply Steered.after keepsFlow_evalColon
        intro colon
        apply Steered.ite (Steered.of_keeps (Keeps.pure ()))
        have hend : Keeps State.flow (do
            let s <- get
            emit (insertLoop s.editor.loopStack.length loop)
            setMode env Mode.parseOnlyLoop :
            Exec (State W Reg) Unit) := by
          apply Keeps.bind Keeps.get
          intro t
          apply Keeps.bind (Keeps.emit _)
          intro _
          exact keepsFlow_setMode _
        have hrest := Keeps.bind (keepsFlow_onExpr Expressions.discardArgs)
          (fun _ => Keeps.guard (c := loop.passThrough = true)
            (keepsFlow_onExpr
              (Expressions.braceReturn loop.braceLevel 0))
            (fun _ => hend))
        have hall := hpop.andThen (fun _ => hrest)
        rw [bind_assoc] at hall
        exact hall

theorem steered_fcommandLoopStart :
    Steered (fcommandLoopStart env : Exec (State W Reg) Unit) := by
  intro s
  unfold fcommandLoopStart
  rw [wp_bind, wp_get]
  split
  · rw [wp_bind]
    apply wp_call (keepsFlow_onExpr _ s)
    intro _ t ht
    rw [<- ht, wp_modify]
    exact ⟨rfl, Or.inr (Or.inl rfl), fun p hp => Or.inr hp⟩
  case h_2 loop own hown =>
      have hjump : loop.pc ∈ s.flow.loopPcs := mem_loopPcs hown
      have hend (t : State W Reg) (ht : t.flow = s.flow) :
          wp (modify (State.mapMachine (fun m =>
              { m with macroPc := loop.pc })) : Exec (State W Reg) Unit)
            (fun _ u => s.flow.Steers u.flow) (fun _ _ => True)
            (fun _ => True) t := by
        rw [wp_modify]
        rw [<- ht] at hjump ⊢
        exact ⟨rfl, Or.inr (Or.inr hjump), fun p hp => Or.inr hp⟩
      rw [wp_bind]
      apply wp_call (keepsFlow_evalColon s)
      intro colon t ht
      dsimp only
      rw [wp_ite]
      split
      · exact hend t ht
      · rw [wp_ite]
        split
        · rw [wp_bind]
          apply wp_call (keepsFlow_onExpr _ t)
          intro _ u hu
          rw [wp_bind]
          apply wp_call (keepsFlow_onExpr _ u)
          intro _ v hv
          exact hend v (hv.trans (hu.trans ht))
        · rw [wp_bind]
          apply wp_call (keepsFlow_onExpr _ t)
          intro _ u hu
          exact hend u (hu.trans ht)

theorem steered_fcommandLoopEnd :
    Steered (fcommandLoopEnd env : Exec (State W Reg) Unit) := by
  apply Steered.after Keeps.get
  intro s
  split
  · exact Steered.of_keeps keepsFlow_returnArguments
  · apply Steered.andThen steered_loopClose
    intro _
    apply Keeps.bind Keeps.get
    intro t
    exact Keeps.ite (keepsFlow_setMode _) (Keeps.pure ())

/-!
## Callbacks
-/

/-- The commands of loops. -/
def Callback.steers : Callback -> Bool
  | loopOpen => true
  | loopClose => true
  | loopBreak => true
  | fcommandLoopStart => true
  | fcommandLoopEnd => true
  | _ => false

/-- The next state and the state of the machine before it is entered.  A
command that steers is not followed by an argument or a modifier. -/
def Turns (s : State W Reg) (next : MainState) (t : State W Reg) : Prop :=
  t.flow = s.flow ∨
    next = MainState.start ∧ t.machine.flags.modifierAt = false ∧
      s.flow.Steers t.flow

def Turned (m : Exec (State W Reg) MainState) : Prop :=
  forall s, wp m (fun next t => Turns s next t) (fun _ _ => True)
    (fun _ => True) s

namespace Turned

theorem of_keeps {m : Exec (State W Reg) MainState}
    (h : Keeps State.flow m) : Turned m := by
  intro s
  apply wp_call (h s)
  intro _ t ht
  exact Or.inl ht

theorem ite {c : Prop} [Decidable c] {m n : Exec (State W Reg) MainState}
    (hm : Turned m) (hn : Turned n) : Turned (if c then m else n) := by
  split
  · exact hm
  · exact hn

theorem after {α : Type} {m : Exec (State W Reg) α}
    {g : α -> Exec (State W Reg) MainState} (hm : Keeps State.flow m)
    (hg : forall a, Turned (g a)) : Turned (m >>= g) := by
  intro s
  rw [wp_bind]
  apply wp_call (hm s)
  intro a t ht
  apply wp_call (hg a t)
  intro next u hu
  unfold Turns at hu ⊢
  rw [<- ht]
  exact hu

end Turned

/-- A table has no argument or modifier for a command that steers. -/
def SteersBare (transitions : Char -> Option Transition) : Prop :=
  forall c entry callback, transitions c = some entry ->
    entry.callback = some callback -> callback.steers = true ->
    entry.next = MainState.start ∧ entry.modifierAt = false

theorem steersBare_start : SteersBare startTransitions := by
  intro c entry callback hentry hcallback hsteers
  unfold startTransitions at hentry
  split at hentry <;>
    first
    | (cases hentry; exact ⟨rfl, rfl⟩)
    | (cases hentry; cases hcallback)
    | cases hentry

theorem steersBare_control : SteersBare controlTransitions := by
  intro c entry callback hentry hcallback hsteers
  unfold controlTransitions at hentry
  split at hentry <;>
    first
    | (cases hentry; exact ⟨rfl, rfl⟩)
    | (cases hentry; cases hcallback)
    | cases hentry

theorem steersBare_fcommand : SteersBare fcommandTransitions := by
  intro c entry callback hentry hcallback hsteers
  unfold fcommandTransitions at hentry
  split at hentry <;>
    first
    | (cases hentry; exact ⟨rfl, rfl⟩)
    | (cases hentry; cases hcallback)
    | cases hentry

theorem steersBare_ecommand : SteersBare ecommandTransitions := by
  intro c entry callback hentry hcallback hsteers
  unfold ecommandTransitions at hentry
  split at hentry <;>
    first
    | (cases hentry; exact ⟨rfl, rfl⟩)
    | (cases hentry; cases hcallback; done)
    | (cases hentry; cases hcallback; cases hsteers)
    | cases hentry

section Commands

variable [DecidableEq Reg] (hhost : host.Nests False env)
include hhost

theorem keepsFlow_runCallback {callback : Callback}
    (h : callback.steers = false) :
    Keeps State.flow
      (runCallback host env callback : Exec (State W Reg) Unit) := by
  cases callback with
  | mul => exact keepsFlow_onExpr _
  | div => exact keepsFlow_onExpr _
  | plus => exact keepsFlow_onExpr _
  | minus => exact keepsFlow_onExpr _
  | and => exact keepsFlow_onExpr _
  | or => exact keepsFlow_onExpr _
  | braceOpen => exact keepsFlow_onExpr _
  | braceClose => exact keepsFlow_onExpr _
  | comma => exact keepsFlow_onExpr _
  | negate => exact keepsFlow_controlNegate
  | pow => exact keepsFlow_onExpr _
  | mod => exact keepsFlow_onExpr _
  | xor => exact keepsFlow_onExpr _
  | loopOpen => cases h
  | loopClose => cases h
  | loopBreak => cases h
  | cmdlinePush =>
      exact Keeps.ite (keepsFlow_onHost (hhost.command _ (.run _)))
        (Keeps.throw _)
  | cmdlinePop =>
      apply Keeps.bind Keeps.get
      intro s
      exact Keeps.ite (Keeps.throw _)
        (Keeps.ite (Keeps.throw _) (Keeps.throw _))
  | fcommandLoopStart => cases h
  | fcommandLoopEnd => cases h
  | fcommandCondEnd => exact keepsFlow_setMode _
  | fcommandCondElse => exact keepsFlow_setMode _
  | macrofileDeprecated => exact keepsFlow_interfaceMsg _ _
  | editor cmd => exact keepsFlow_onHost (hhost.command _ (.run cmd))

theorem steered_runCallback (callback : Callback) :
    Steered (runCallback host env callback : Exec (State W Reg) Unit) := by
  cases callback with
  | loopOpen => exact steered_loopOpen
  | loopClose => exact steered_loopClose
  | loopBreak => exact steered_loopBreak hhost
  | fcommandLoopStart => exact steered_fcommandLoopStart
  | fcommandLoopEnd => exact steered_fcommandLoopEnd
  | _ => exact Steered.of_keeps (keepsFlow_runCallback hhost rfl)

theorem turned_transitionInput {transitions : Char -> Option Transition}
    (htable : SteersBare transitions) (chr : Gunichar) :
    Turned (transitionInput host env transitions chr) := by
  intro s
  unfold transitionInput
  rw [wp_bind, wp_get]
  split
  · trivial
  case h_2 entry hentry =>
      rw [wp_ite]
      split
      · trivial
      case isFalse hmodifier =>
          split
          case h_2 => exact Or.inl rfl
          case h_1 callback hcallback =>
              rw [wp_ite]
              split
              case isFalse => exact Or.inl rfl
              case isTrue =>
                  rw [wp_bind]
                  have hfixed : Keeps State.fixed
                      (runCallback host env callback) :=
                    keeps_runCallback callback
                  cases hsteers : callback.steers with
                  | false =>
                      apply wp_call (keepsFlow_runCallback hhost hsteers s)
                      intro _ t ht
                      exact Or.inl ht
                  | true =>
                      rcases Option.bind_eq_some_iff.mp hentry with
                        ⟨c, _, hc⟩
                      have hbare := htable c entry callback hc hcallback
                        hsteers
                      apply wp_call_and (hfixed s)
                        (steered_runCallback hhost callback s)
                      intro _ t hfix ht
                      have hat : t.machine.flags.modifierAt =
                          s.machine.flags.modifierAt :=
                        congrArg (fun f => f.1.flags.modifierAt) hfix
                      refine Or.inr ⟨hbare.1, ?_, ht⟩
                      rw [hat]
                      by_contra hset
                      exact hmodifier (Or.inl
                        ⟨Bool.not_eq_false _ ▸ hset, hbare.2⟩)

theorem turned_startInput (chr : Gunichar) :
    Turned (startInput host env chr) := by
  have htable : Turned (startTransition host env chr) :=
    turned_transitionInput hhost steersBare_start _
  have hword (cmd : Bool -> EditorCommand) :
      Turned (wordCommand host env cmd) :=
    Turned.of_keeps (keepsFlow_wordCommand hhost cmd)
  apply Turned.after Keeps.get
  intro s
  apply Turned.ite
    (Turned.of_keeps (keepsFlow_unmodified chr (Keeps.pure ())))
  apply Turned.ite
    (Turned.of_keeps (keepsFlow_unmodified chr (keepsFlow_digit chr)))
  split
  · exact Turned.ite (Turned.of_keeps (Keeps.pure _)) htable
  · apply Turned.ite (Turned.of_keeps (Keeps.throw _))
    exact Turned.ite (Turned.of_keeps keepsFlow_skipLoopOpen) htable
  · apply Turned.ite (Turned.of_keeps (Keeps.throw _))
    exact Turned.ite (Turned.of_keeps keepsFlow_skipLoopClose) htable
  · exact Turned.of_keeps (keepsFlow_unmodified chr keepsFlow_condElse)
  · exact Turned.of_keeps (keepsFlow_unmodified chr keepsFlow_condEnd)
  · exact hword _
  · exact hword _
  · exact hword _
  · exact hword _
  · exact hword _
  · exact hword _
  · exact hword _
  · exact hword _
  · exact Turned.of_keeps (keepsFlow_atModifier chr)
  · exact Turned.of_keeps (keepsFlow_colonModifier chr)
  · exact Turned.ite (turned_transitionInput hhost steersBare_control _)
      htable

/-- Between two commands something is done before the next one begins. -/
theorem turned_thenStart {m : Exec (State W Reg) Unit} (chr : Gunichar)
    (h : Keeps State.flow m) :
    Turned (m >>= fun _ => startInput host env chr) :=
  Turned.after h (fun _ => turned_startInput hhost chr)

theorem turned_ctlcControlInput (chr : Gunichar) :
    Turned (ctlcControlInput host env chr) := by
  apply Turned.after Keeps.get
  intro s
  apply Turned.ite
  · apply Turned.of_keeps
    apply Keeps.ite (Keeps.pure _)
    apply Keeps.ite (Keeps.throw _)
    apply Keeps.bind (keepsFlow_onExpr _)
    intro _
    exact Keeps.throw _
  · apply Turned.ite
    · apply Turned.of_keeps
      apply Keeps.bind keepsFlow_tecoReturn
      intro _
      exact Keeps.pure _
    · exact turned_transitionInput hhost steersBare_control _

/-- All states but labels and the labels of `O`. -/
theorem turned_stateInput {current : MainState} (chr : Gunichar)
    (hlabel : current ≠ MainState.label)
    (hgoto : current ≠ MainState.expectstring StringCommand.goto) :
    Turned (stateInput host env current chr) := by
  have hprint (radix : Nat) : Turned
      (do printDeferred env radix; startInput host env chr) :=
    turned_thenStart hhost chr (keepsFlow_printDeferred radix)
  have hreturn : Turned (do
      tecoReturn host env
      pure MainState.start) := by
    apply Turned.of_keeps
    apply Keeps.bind keepsFlow_tecoReturn
    intro _
    exact Keeps.pure _
  have hsame (state : MainState) :
      Turned (pure state : Exec (State W Reg) MainState) :=
    Turned.of_keeps (Keeps.pure state)
  cases current with
  | start => exact turned_startInput hhost chr
  | fcommand => exact turned_transitionInput hhost steersBare_fcommand _
  | condcommand => exact Turned.of_keeps (keepsFlow_condcommandInput chr)
  | control => exact turned_transitionInput hhost steersBare_control _
  | ascii => exact Turned.of_keeps (keepsFlow_asciiInput chr)
  | escape =>
      apply Turned.after Keeps.get
      intro s
      apply Turned.ite
      · exact Turned.ite hreturn (hsame _)
      · exact Turned.ite
          (turned_thenStart hhost chr (keepsFlow_onExpr _))
          (turned_startInput hhost chr)
  | ctlc =>
      apply Turned.after Keeps.get
      intro s
      apply Turned.ite (turned_ctlcControlInput hhost _)
      apply Turned.ite (hsame _)
      exact Turned.ite hreturn (turned_startInput hhost chr)
  | ctlcControl => exact turned_ctlcControlInput hhost chr
  | ecommand => exact turned_transitionInput hhost steersBare_ecommand _
  | label => exact absurd rfl hlabel
  | blockcomment => exact hsame _
  | blockcommentStar => exact hsame _
  | eolcomment => exact hsame _
  | printDecimal => exact Turned.ite (hsame _) (hprint 10)
  | printOctal =>
      apply Turned.after Keeps.get
      intro s
      apply Turned.ite
      · apply Turned.of_keeps
        apply Keeps.ite
        · exact Keeps.bind (keepsFlow_print 16) (fun _ =>
            Keeps.bind (keepsFlow_onExpr _) (fun _ => Keeps.pure _))
        · exact Keeps.pure _
      · exact hprint 8
  | expectqreg cmd =>
      exact Turned.of_keeps (keepsFlow_expectqregInput hhost cmd chr)
  | expectstring cmd =>
      apply Turned.of_keeps
      have hcmd : cmd ≠ StringCommand.goto := by
        intro heq
        rw [heq] at hgoto
        exact hgoto rfl
      have hfinish : Keeps State.flow (finishString host env cmd) := by
        apply Keeps.bind (keepsFlow_stringProcess hhost cmd)
        intro _
        apply Keeps.bind Keeps.get
        intro s t
        rw [wp_ensuring]
        apply wp_mono (keepsFlow_stringDone hhost _ hcmd t)
        · intro next u hu
          apply wp_call (keepsFlow_resetString cmd u)
          intro _ v hv
          exact hv.trans hu
        · intro e u _
          exact wp_of_forall (fun _ _ => trivial) (fun _ _ => trivial)
            (fun _ => trivial)
        · exact fun _ _ => trivial
      apply Keeps.bind Keeps.get
      intro s
      apply Keeps.ite (Keeps.pure _)
      apply Keeps.bind keepsFlow_evalAt
      intro modifierAt
      apply Keeps.ite
      · apply Keeps.bind (keepsFlow_setEscapeChar _)
        intro _
        exact Keeps.pure _
      · apply Keeps.bind (keepsFlow_countNesting chr)
        intro _
        apply Keeps.bind Keeps.get
        intro t
        exact Keeps.ite hfinish (keepsFlow_accumulateString hhost cmd chr)

end Commands

/-!
## Labels
-/

namespace Flow

/-- The end of a label definition. -/
def endLabel (f : Flow) : Flow :=
  match gotoTableFind f.labels f.name with
  | some _ => { f with name := [] }
  | none =>
      if f.wanted ≠ [] ∧ f.name = f.wanted then
        { f with
          labels := (f.name, f.pc) :: f.labels
          name := []
          wanted := []
          backup := none }
      else
        { f with labels := (f.name, f.pc) :: f.labels, name := [] }

/-- A character of a label. -/
def readLabel (f : Flow) (chr : Gunichar) : Flow :=
  if f.name = [] ∧ chr = '*'.toNat then f
  else if f.name = [] ∧ chr = '!'.toNat then f
  else if chr = '!'.toNat then f.endLabel
  else { f with name := f.name ++ unicharToUtf8 chr }

end Flow

theorem wp_labelInput_flow (s : State W Reg) (chr : Gunichar) :
    wp (labelInput env chr)
      (fun _ t => t.flow = s.flow.readLabel chr ∧
        (s.gotoSkipLabel ≠ [] -> t.gotoSkipLabel = [] ->
          t.mode = Mode.normal))
      (fun _ _ => True) (fun _ => True) s := by
  have hname : s.flow.name = s.machine.gotoLabel := rfl
  unfold labelInput Flow.readLabel
  rw [wp_bind, wp_get, hname]
  by_cases hblock : s.machine.gotoLabel = [] ∧ chr = '*'.toNat
  · rw [if_pos hblock, if_pos hblock]
    exact ⟨rfl, fun h h' => absurd h' h⟩
  rw [if_neg hblock, if_neg hblock]
  by_cases heol : s.machine.gotoLabel = [] ∧ chr = '!'.toNat
  · rw [if_pos heol, if_pos heol]
    exact ⟨rfl, fun h h' => absurd h' h⟩
  rw [if_neg heol, if_neg heol]
  by_cases hend : chr = '!'.toNat
  · rw [if_pos hend, if_pos hend]
    unfold labelDone Flow.endLabel
    simp only [wp_bind, wp_get, wp_undo, wp_modify, wp_pure]
    have htable : s.flow.labels = s.machine.gotoTable := rfl
    rw [htable, hname]
    cases hfind : gotoTableFind s.machine.gotoTable s.machine.gotoLabel with
    | some pc =>
        simp only [wp_ite, wp_interfaceMsg, wp_pure]
        split
        · exact ⟨rfl, fun h h' => absurd h' h⟩
        · exact ⟨rfl, fun h h' => absurd h' h⟩
    | none =>
        simp only [wp_bind, wp_modify, wp_undo, wp_ite,
          wp_clearGotoSkipLabel, wp_setMode, wp_pure]
        have hskip : s.flow.wanted = s.gotoSkipLabel := rfl
        rw [hskip]
        split
        · exact ⟨rfl, fun _ _ => rfl⟩
        · exact ⟨rfl, fun h h' => absurd h' h⟩
  · rw [if_neg hend, if_neg hend]
    simp only [wp_bind, wp_undo, wp_modify, wp_pure]
    exact ⟨rfl, fun h h' => absurd h' h⟩

/-- What `O` does to find a label. -/
inductive Flow.Goes (label : Bytes) (colon : Bool) (f : Flow) :
    Flow -> Prop where
  | nowhere (hlabel : label = []) : Goes label colon f f
  | known (pc : Nat) (hlabel : label ≠ [])
      (hfind : gotoTableFind f.labels label = some pc) :
      Goes label colon f { f with pc := pc }
  | missing (hlabel : label ≠ [])
      (hfind : gotoTableFind f.labels label = none)
      (hcomplete : f.complete = true) (hcolon : colon = true) :
      Goes label colon f f
  | wanted (hlabel : label ≠ [])
      (hfind : gotoTableFind f.labels label = none)
      (hcomplete : f.complete = false) :
      Goes label colon f
        { f with
          wanted := label
          backup := if colon then some f.pc else none }

theorem wp_gotoLabel_goes (s : State W Reg) {label : Bytes} (colon : Bool)
    (hlabel : label ≠ []) :
    wp (gotoLabel env label colon)
      (fun _ t => s.flow.Goes label colon t.flow ∧
        (t.mode = s.mode ∨ t.gotoSkipLabel ≠ []))
      (fun _ _ => True) (fun _ => True) s := by
  have hlabels : s.flow.labels = s.machine.gotoTable := rfl
  have hall : s.flow.complete = s.machine.gotoComplete := rfl
  unfold gotoLabel
  rw [wp_bind, wp_get]
  cases hfind : gotoTableFind s.machine.gotoTable label with
  | some pc =>
      rw [<- hlabels] at hfind
      exact ⟨Flow.Goes.known pc hlabel hfind, Or.inl rfl⟩
  | none =>
      rw [<- hlabels] at hfind
      dsimp only
      rw [wp_ite]
      split
      case isTrue hcomplete =>
          rw [wp_ite]
          split
          case isTrue hcolon =>
              exact ⟨Flow.Goes.missing hlabel hfind (hall.trans hcomplete)
                hcolon, Or.inl rfl⟩
          case isFalse => trivial
      case isFalse hcomplete =>
          simp only [wp_ite, wp_fault, wp_bind, wp_emit, wp_modify,
            wp_setMode]
          split
          · trivial
          · exact ⟨Flow.Goes.wanted hlabel hfind
              (hall.trans (Bool.not_eq_true _ ▸ hcomplete)), Or.inr hlabel⟩

/-- The label is selected by the argument of `O`. -/
structure Goto (s : State W Reg) (str : Bytes) (t : State W Reg) : Prop where
  goes : exists value e tokens,
    Expressions.popNumCalc 0 s.editor.expr = .ok value e tokens ∧
      s.flow.Goes (selectLabel str value)
        (decide (0 < s.machine.flags.modifierColon)) t.flow
  mode : t.mode = s.mode ∨ t.gotoSkipLabel ≠ []

theorem wp_gotoDone_goes (s : State W Reg) (str : Bytes) :
    wp (gotoDone env str) (fun _ t => Goto s str t) (fun _ _ => True)
      (fun _ => True) s := by
  have hpop : wp (onExpr (Expressions.popNumCalc 0) :
      Exec (State W Reg) TecoInt)
      (fun value t => exists e tokens,
        Expressions.popNumCalc 0 s.editor.expr = .ok value e tokens ∧
          t = exprLens.set e s) (fun _ _ => True) (fun _ => True) s := by
    show wp (zoom exprLens (Expressions.popNumCalc 0)) _ _ _ s
    rw [wp_zoom]
    unfold wp
    cases hrun : Expressions.popNumCalc 0 (exprLens.get s) with
    | ok value e tokens => exact ⟨e, tokens, hrun, rfl⟩
    | error e t tokens => trivial
    | fault c => trivial
  unfold gotoDone
  rw [wp_ite]
  split
  · trivial
  · rw [wp_bind]
    apply wp_call hpop
    intro value t ht
    rcases ht with ⟨e, tokens, hvalue, rfl⟩
    have hcolon : wp (evalColon env) (fun colon u =>
        colon = s.machine.flags.modifierColon ∧ u.flow = s.flow ∧
          u.mode = s.mode) (fun _ _ => True) (fun _ => True)
        (exprLens.set e s) := by
      unfold evalColon
      simp only [wp_bind, wp_get, wp_ite, wp_undoFlags, wp_modify, wp_pure]
      split
      case isTrue hzero => exact ⟨hzero.symm, rfl, rfl⟩
      case isFalse => exact ⟨rfl, rfl, rfl⟩
    rw [wp_bind]
    apply wp_call hcolon
    rintro colon u ⟨rfl, hflow, hmode⟩
    dsimp only
    rw [wp_ite]
    split
    case isTrue hnone =>
        refine ⟨⟨value, e, tokens, hvalue, ?_⟩, Or.inl hmode⟩
        rw [hflow]
        exact Flow.Goes.nowhere hnone
    case isFalse hlabel =>
        apply wp_call (wp_gotoLabel_goes u _ hlabel)
        rintro _ v ⟨hgoes, hmode'⟩
        refine ⟨⟨value, e, tokens, hvalue, ?_⟩, ?_⟩
        · rw [hflow] at hgoes
          exact hgoes
        · rw [hmode] at hmode'
          exact hmode'

/-- What `O` is given. -/
def State.given (s : State W Reg) : Editor W × Bytes × Nat × Mode :=
  (s.editor, s.machine.expectstring.string, s.machine.flags.modifierColon,
    s.mode)

theorem Goto.congr {s t u : State W Reg} {str : Bytes}
    (h : Goto t str u) (hflow : t.flow = s.flow)
    (hgiven : t.given = s.given) : Goto s str u := by
  have heditor : t.editor = s.editor := congrArg Prod.fst hgiven
  have hcolon : t.machine.flags.modifierColon =
      s.machine.flags.modifierColon := congrArg (fun g => g.2.2.1) hgiven
  have hmode : t.mode = s.mode := congrArg (fun g => g.2.2.2) hgiven
  rcases h with ⟨⟨value, e, tokens, hvalue, hgoes⟩, hleft⟩
  rw [heditor] at hvalue
  rw [hflow, hcolon] at hgoes
  rw [hmode] at hleft
  exact ⟨⟨value, e, tokens, hvalue, hgoes⟩, hleft⟩

/-- The labels of `O` are complete. -/
theorem wp_finishGoto (s : State W Reg) :
    wp (finishString host env StringCommand.goto)
      (fun next t => (t.flow = s.flow ∧ s.mode ≠ Mode.normal) ∨
        next = MainState.start ∧ s.mode = Mode.normal ∧
          Goto s s.machine.expectstring.string t)
      (fun _ _ => True) (fun _ => True) s := by
  have hprocess : wp (stringProcess host env StringCommand.goto)
      (fun _ t => t = s) (fun _ _ => True) (fun _ => True) s := by
    unfold stringProcess
    rw [wp_bind, wp_get]
    simp only [wp_ite, wp_pure]
    split
    · trivial
    · rw [if_neg (by decide), if_neg (by decide)]
      trivial
  have hreset (t : State W Reg) :
      wp (resetString env StringCommand.goto)
        (fun _ u => u.flow = t.flow ∧ u.mode = t.mode)
        (fun _ _ => True) (fun _ => True) t := by
    apply wp_call_and (keepsFlow_resetString StringCommand.goto t)
      (clearsSkip_resetString StringCommand.goto t)
    intro _ u hflow hskip
    exact ⟨hflow, congrArg Skip.mode hskip⟩
  unfold finishString
  rw [wp_bind]
  apply wp_call hprocess
  intro _ s' hs'
  rw [hs', wp_bind, wp_get, wp_ensuring]
  unfold stringDone
  rw [wp_bind, wp_getMode, wp_ite]
  split
  case isTrue hskipped =>
      apply wp_call (hreset s)
      intro _ t ht
      exact Or.inl ⟨ht.1, hskipped⟩
  case isFalse hnormal =>
      rw [wp_bind]
      apply wp_mono (wp_gotoDone_goes s _)
      · rintro _ t ⟨hgoes, hmode⟩
        rw [wp_pure]
        apply wp_call (hreset t)
        rintro _ u ⟨hflow, humode⟩
        have hwanted : u.gotoSkipLabel = t.gotoSkipLabel :=
          congrArg Flow.wanted hflow
        rw [<- hflow] at hgoes
        rw [<- humode, <- hwanted] at hmode
        exact Or.inr ⟨rfl, not_not.mp hnormal, hgoes, hmode⟩
      · intro e t _
        exact wp_of_forall (fun _ _ => trivial) (fun _ _ => trivial)
          (fun _ => trivial)
      · exact fun _ h => h

/-- The labels of `O`. -/
theorem wp_gotoInput (hhost : host.Nests False env) (s : State W Reg)
    (chr : Gunichar) :
    wp (expectstringInput host env StringCommand.goto chr)
      (fun next t =>
        (t.flow = s.flow ∧
          (next = MainState.start -> s.mode ≠ Mode.normal)) ∨
        next = MainState.start ∧ s.mode = Mode.normal ∧
          Goto s s.machine.expectstring.string t)
      (fun _ _ => True) (fun _ => True) s := by
  have hat : Keeps State.given (evalAt env : Exec (State W Reg) Bool) := by
    apply Keeps.bind Keeps.get
    intro s
    apply Keeps.ite _ (Keeps.pure _)
    apply Keeps.bind
    · apply Keeps.bind Keeps.get
      intro s
      exact keeps_undo _
    intro _
    apply Keeps.bind
    · exact Keeps.modify (fun _ => rfl)
    intro _
    exact Keeps.pure _
  have hnesting : Keeps State.given (countNesting host env chr) := by
    apply Keeps.bind Keeps.get
    intro s
    apply Keeps.ite (Keeps.pure ())
    apply Keeps.bind (keeps_undo _)
    intro _
    exact Keeps.modify (fun _ => rfl)
  unfold expectstringInput
  rw [wp_bind, wp_get, wp_ite]
  split
  · exact Or.inl ⟨rfl, fun hnext => by cases hnext⟩
  · rw [wp_bind]
    apply wp_call_and (keepsFlow_evalAt s) (hat s)
    intro modifierAt t hflow hgiven
    rw [wp_ite]
    split
    · rw [wp_bind]
      apply wp_call (keepsFlow_setEscapeChar _ t)
      intro _ u hu
      exact Or.inl ⟨hu.trans hflow, fun hnext => by cases hnext⟩
    · rw [wp_bind]
      apply wp_call_and (keepsFlow_countNesting chr t) (hnesting t)
      intro _ u hflow' hgiven'
      have hu : u.flow = s.flow := hflow'.trans hflow
      have hsame : u.given = s.given := hgiven'.trans hgiven
      rw [wp_bind, wp_get, wp_ite]
      split
      · have hmode' : u.mode = s.mode := congrArg (fun g => g.2.2.2) hsame
        apply wp_call (wp_finishGoto u)
        rintro next v (⟨hkept, hskipped⟩ | ⟨hnext, hmode, hgoto⟩)
        · rw [hmode'] at hskipped
          exact Or.inl ⟨hkept.trans hu, fun _ => hskipped⟩
        · have hstring : u.machine.expectstring.string =
              s.machine.expectstring.string :=
            congrArg (fun g => g.2.1) hsame
          rw [hstring] at hgoto
          exact Or.inr ⟨hnext, hmode'.symm.trans hmode,
            hgoto.congr hu hsame⟩
      · apply wp_call_and (keepsFlow_accumulateString hhost _ chr u)
          (wp_accumulateString_search StringCommand.goto chr)
        intro _ v hv hcollects
        rw [hcollects.next]
        exact Or.inl ⟨hv.trans hu, fun hnext => by cases hnext⟩

/-!
## Characters
-/

/-- Where the execution goes on behind a character. -/
inductive Course (s : State W Reg) (chr : Gunichar) (t : State W Reg) :
    Prop where
  | kept (hother : s.machine.current ≠ MainState.label)
      (hskipped : s.machine.current =
          MainState.expectstring StringCommand.goto ->
        t.machine.current = MainState.start -> s.mode ≠ Mode.normal)
      (hflow : t.flow = s.flow)
  | steers (hother : s.machine.current ≠ MainState.label)
      (hargument : s.machine.current ≠
        MainState.expectstring StringCommand.goto)
      (hcurrent : t.machine.current = MainState.start)
      (hat : t.machine.flags.modifierAt = false)
      (hflow : s.flow.Steers t.flow)
  | label (hcurrent : s.machine.current = MainState.label)
      (hflow : t.flow = s.flow.readLabel chr)
      (hfound : s.gotoSkipLabel ≠ [] -> t.gotoSkipLabel = [] ->
        t.mode = Mode.normal)
  | goto (hstring : s.machine.current =
        MainState.expectstring StringCommand.goto)
      (hcurrent : t.machine.current = MainState.start)
      (hmode : s.mode = Mode.normal)
      (hgoto : Goto s s.machine.expectstring.string t)

/-- The beginning of the next command. -/
theorem wp_enterStart (s : State W Reg) :
    wp (enterState host env MainState.start)
      (fun _ t => t = s.mapMachine (fun m =>
        { m with current := MainState.start }))
      (fun _ _ => True) (fun _ => True) s := by
  unfold enterState
  rw [wp_bind, wp_get, wp_ite]
  split
  case isTrue hsame =>
      show s = _
      unfold State.mapMachine
      rw [hsame]
  case isFalse =>
      rw [wp_bind, wp_undo, wp_bind, wp_modify]
      exact rfl

theorem wp_machineInput_course [DecidableEq Reg]
    (hhost : host.Nests False env) (s : State W Reg) (chr : Gunichar) :
    wp (machineInput host env chr) (fun _ t => Course s chr t)
      (fun _ _ => True) (fun _ => True) s := by
  unfold machineInput
  rw [wp_bind, wp_get, wp_bind]
  have henter (next : MainState) (u : State W Reg) :
      wp (enterState host env next)
        (fun _ t => t.flow = u.flow ∧ t.mode = u.mode ∧
          t.machine.current = next)
        (fun _ _ => True) (fun _ => True) u := by
    apply wp_call_and
      (wp_call_and (keepsFlow_enterState hhost next u)
        (keepsSkip_enterState next u)
        (fun _ _ hflow hskip => And.intro hflow (congrArg Skip.mode hskip)))
      (wp_enterState_current next u)
    intro _ t hkept hcurrent
    exact ⟨hkept.1, hkept.2, hcurrent⟩
  by_cases hlabel : s.machine.current = MainState.label
  · have hinput : wp (stateInput host env s.machine.current chr)
        (fun _ t => t.flow = s.flow.readLabel chr ∧
          (s.gotoSkipLabel ≠ [] -> t.gotoSkipLabel = [] ->
            t.mode = Mode.normal))
        (fun _ _ => True) (fun _ => True) s := by
      rw [hlabel]
      exact wp_labelInput_flow s chr
    apply wp_call hinput
    rintro next u ⟨hflow, hfound⟩
    apply wp_call (henter next u)
    rintro _ t ⟨ht, hmode, _⟩
    apply Course.label hlabel (ht.trans hflow)
    intro hwanted hcleared
    rw [hmode]
    apply hfound hwanted
    have hsame : t.gotoSkipLabel = u.gotoSkipLabel :=
      congrArg Flow.wanted ht
    rw [<- hsame]
    exact hcleared
  by_cases hgoto : s.machine.current =
      MainState.expectstring StringCommand.goto
  · have hinput : wp (stateInput host env s.machine.current chr)
        (fun next t =>
          (t.flow = s.flow ∧
            (next = MainState.start -> s.mode ≠ Mode.normal)) ∨
          next = MainState.start ∧ s.mode = Mode.normal ∧
            Goto s s.machine.expectstring.string t)
        (fun _ _ => True) (fun _ => True) s := by
      rw [hgoto]
      exact wp_gotoInput hhost s chr
    apply wp_call hinput
    rintro next u (⟨hflow, hskipped⟩ | ⟨rfl, hmode, hgoes, hleft⟩)
    · apply wp_call (henter next u)
      rintro _ t ⟨ht, _, hcurrent⟩
      rw [<- hcurrent] at hskipped
      exact Course.kept hlabel (fun _ => hskipped) (ht.trans hflow)
    · apply wp_call (wp_enterStart u)
      intro _ t ht
      rw [ht]
      exact Course.goto hgoto rfl hmode ⟨hgoes, hleft⟩
  · apply wp_call (turned_stateInput hhost chr hlabel hgoto s)
    rintro next u (hflow | ⟨rfl, hat, hsteers⟩)
    · apply wp_call (henter next u)
      rintro _ t ⟨ht, _⟩
      exact Course.kept hlabel (fun h => absurd h hgoto) (ht.trans hflow)
    · apply wp_call (wp_enterStart u)
      intro _ t ht
      rw [ht]
      exact Course.steers hlabel hgoto rfl hat hsteers

end Parser
end SciTECO
