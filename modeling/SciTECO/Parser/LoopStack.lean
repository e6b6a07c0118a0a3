import SciTECO.Lib.ArrayTokens
import SciTECO.Parser.QuietMain

/-!
# The loop stack of an invocation

A macro invocation works on the loops above its frame pointer, and the tokens of
its commands take back what they have done there.  The commands that open, close
and break a loop are the only ones that change the loop stack.
-/

namespace SciTECO
namespace Parser

open Undoable
open QReg (Table)

variable {W Reg : Type} {host : Host W Reg} {env : Env} {strict : Prop}

/-!
## Discipline
-/

def State.loops (s : State W Reg) : List LoopContext := s.editor.loopStack

/-- The loops of the callers of this invocation. -/
def State.callers (s : State W Reg) : List LoopContext :=
  s.loops.drop (s.loops.length - s.machine.loopStackFp)

/-- The loop stack ends with the loops of the same callers. -/
structure SameCallers (s t : State W Reg) : Prop where
  fp : t.machine.loopStackFp = s.machine.loopStackFp
  callers : t.callers = s.callers
  inside : t.machine.loopStackFp <= t.loops.length

theorem SameCallers.refl {s : State W Reg}
    (hinside : s.machine.loopStackFp <= s.loops.length) :
    SameCallers s s :=
  ⟨rfl, rfl, hinside⟩

theorem SameCallers.trans {s t u : State W Reg} (h : SameCallers s t)
    (h' : SameCallers t u) : SameCallers s u := by
  constructor
  · exact h'.fp.trans h.fp
  · exact h'.callers.trans h.callers
  · exact h'.inside

/-- The callers keep their loops.  In the strict sense the tokens also take back
what has been done to the loops of this invocation: if its machine does not have
to undo anything then only their number is restored. -/
def Disciplined (strict : Prop) (env : Env) (s t : State W Reg)
    (tokens : List (State W Reg -> State W Reg)) : Prop :=
  s.machine.loopStackFp <= s.loops.length ->
    SameCallers s t ∧
    (strict -> Reverted State.loops (env.mustUndo = true)
      s.machine.loopStackFp s t tokens)

theorem disciplined_composes :
    Composes (@Disciplined W Reg strict env) := by
  constructor
  · intro s hinside
    constructor
    · exact SameCallers.refl hinside
    · intro _
      exact Reverted.refl s
  · intro s t u earlier later h h' hinside
    rcases h hinside with ⟨hsame, hback⟩
    rcases h' hsame.inside with ⟨hsame', hback'⟩
    constructor
    · exact hsame.trans hsame'
    · intro hstrict
      have hlater := hback' hstrict
      rw [hsame.fp] at hlater
      exact (hback hstrict).trans hlater

/-- Without a change of the loop stack. -/
theorem Disciplined.of_untouched {s t : State W Reg}
    {tokens : List (State W Reg -> State W Reg)}
    (h : Untouched State.frame s t tokens) :
    Disciplined strict env s t tokens := by
  have hloops : t.loops = s.loops := congrArg Prod.fst h.state
  have hfp : t.machine.loopStackFp = s.machine.loopStackFp :=
    congrArg Prod.snd h.state
  intro hinside
  constructor
  · constructor
    · exact hfp
    · unfold State.callers
      rw [hloops, hfp]
    · rw [hloops, hfp]
      exact hinside
  · intro _
    apply Reverted.of_untouched
    constructor
    · exact hloops
    · intro token hmem u
      exact congrArg Prod.fst (h.tokens token hmem u)

theorem Disciplined.quiet {α : Type} {m : Exec (State W Reg) α}
    (h : Quiet State.frame m) (s : State W Reg) :
    Leads (Disciplined strict env) m s :=
  (h s).mono (fun _ _ hs => Disciplined.of_untouched hs)

/-- A step that changes the loops above the frame pointer. -/
theorem SameCallers.of_suffix {s t : State W Reg}
    (own own' : List LoopContext) {callers : List LoopContext}
    (hs : s.loops = own ++ callers) (ht : t.loops = own' ++ callers)
    (hfp : t.machine.loopStackFp = s.machine.loopStackFp)
    (hcount : s.machine.loopStackFp <= callers.length) :
    SameCallers s t := by
  have hdrop : forall own : List LoopContext,
      (own ++ callers).drop
          ((own ++ callers).length - s.machine.loopStackFp) =
        callers.drop (callers.length - s.machine.loopStackFp) := by
    intro own
    have hlen : (own ++ callers).length - s.machine.loopStackFp =
        own.length + (callers.length - s.machine.loopStackFp) := by
      rw [List.length_append]
      omega
    rw [hlen, List.drop_append, List.drop_eq_nil_of_le (by omega)]
    simp
  constructor
  · exact hfp
  · unfold State.callers
    rw [hfp, hs, ht, hdrop, hdrop]
  · rw [ht, hfp, List.length_append]
    omega

/-- The innermost loop of an invocation is above its callers. -/
theorem loops_of_own {s : State W Reg} {loop : LoopContext}
    {own : List LoopContext} (h : s.ownLoops = loop :: own) :
    exists outer, s.loops = loop :: outer ∧
      s.machine.loopStackFp <= outer.length := by
  unfold State.ownLoops at h
  unfold State.loops
  cases hloops : s.editor.loopStack with
  | nil =>
      rw [hloops] at h
      simp at h
  | cons top outer =>
      rw [hloops] at h
      have hpos : 0 < (top :: outer).length - s.machine.loopStackFp := by
        apply Nat.pos_of_ne_zero
        intro hzero
        rw [hzero] at h
        cases h
      exists outer
      constructor
      · have hcount : exists n,
            (top :: outer).length - s.machine.loopStackFp = n + 1 :=
          ⟨_, (Nat.succ_pred_eq_of_pos hpos).symm⟩
        rcases hcount with ⟨n, hn⟩
        rw [hn, List.take_succ_cons] at h
        rw [(List.cons.inj h).1]
      · simp only [List.length_cons] at hpos
        omega

/-!
## Changes of the loop stack
-/

section Changes

variable {s : State W Reg} {loop : LoopContext} {outer : List LoopContext}

theorem loops_removeLoop (index : Nat) (u : State W Reg) :
    (removeLoop index u).loops =
      (ArrayToken.removeIndex index).apply u.loops := rfl

theorem loops_insertLoop (index : Nat) (u : State W Reg) :
    (insertLoop index loop u).loops =
      (ArrayToken.insertVal index loop).apply u.loops := rfl

theorem loops_setLoopCounter (index : Nat) (counter : TecoInt)
    (u : State W Reg) :
    (setLoopCounter index counter u).loops =
      (ArrayToken.update index
        (fun loop => { loop with counter := counter })).apply u.loops := rfl

/-- A loop is pushed, and its token removes it again. -/
theorem pushLoop_disciplined (loop : LoopContext) (s : State W Reg) :
    Leads (Disciplined strict env)
      (do
        setLoopStack (loop :: s.editor.loopStack)
        emit (removeLoop s.editor.loopStack.length)) s := by
  intro hinside
  constructor
  · exact SameCallers.of_suffix [] [loop] (List.nil_append s.loops).symm rfl
      rfl hinside
  · intro _
    exists [.removeIndex s.editor.loopStack.length]
    constructor
    · exact Logs.single (loops_removeLoop _)
    · intro rest l hrest hl
      have hle : rest.length <= s.editor.loopStack.length := by
        rw [hrest]
        exact hinside
      rcases hl.cons hle with ⟨y, below, hly, _, halike, hlen⟩
      rw [hly]
      constructor
      · refine ⟨?_, trivial⟩
        show s.editor.loopStack.length < (y :: below).length
        rw [List.length_cons, hlen]
        exact Nat.lt_succ_self _
      · show Alike _ rest ((ArrayToken.removeIndex
          s.editor.loopStack.length).apply (y :: below)) s.loops
        rw [<- hlen, ArrayToken.apply_removeTop]
        exact halike

/-- The innermost loop is popped by its last iteration. -/
theorem popLoop_disciplined (hloops : s.loops = loop :: outer)
    (hown : s.machine.loopStackFp <= outer.length) :
    Leads (Disciplined strict env)
      (do
        emit (insertLoop (s.editor.loopStack.length - 1) loop)
        setLoopStack s.editor.loopStack.tail) s := by
  have hlen : s.editor.loopStack.length - 1 = outer.length := by
    show s.loops.length - 1 = outer.length
    rw [hloops]
    rfl
  have htail : s.editor.loopStack.tail = outer := by
    show s.loops.tail = outer
    rw [hloops]
    rfl
  rw [hlen, htail]
  intro _
  constructor
  · exact SameCallers.of_suffix [loop] [] hloops rfl rfl hown
  · intro _
    exists [.insertVal outer.length loop]
    constructor
    · exact Logs.single (loops_insertLoop _)
    · intro rest l hrest hl
      have hl' : Alike (env.mustUndo = true) rest l outer := hl
      constructor
      · exact ⟨Nat.le_of_eq hl'.length.symm, trivial⟩
      · show Alike _ rest ((ArrayToken.insertVal outer.length loop).apply l)
          s.loops
        rw [<- hl'.length, ArrayToken.apply_insertTop, hloops]
        exact hl'.push (fun _ => rfl)

/-- The counter of the innermost loop is decreased.  Without a token only the
number of loops is the same. -/
theorem countLoop_disciplined (hloops : s.loops = loop :: outer)
    (hown : s.machine.loopStackFp <= outer.length) (counter : TecoInt) :
    Leads (Disciplined strict env)
      (do
        undo env (setLoopCounter (s.editor.loopStack.length - 1) loop.counter)
        modify (setLoopCounter (s.editor.loopStack.length - 1) counter)) s := by
  have hlen : s.editor.loopStack.length - 1 = outer.length := by
    show s.loops.length - 1 = outer.length
    rw [hloops]
    rfl
  have hafter : (setLoopCounter outer.length counter s).loops =
      { loop with counter := counter } :: outer := by
    rw [loops_setLoopCounter, hloops, ArrayToken.apply_updateTop]
  have hsame : SameCallers s (setLoopCounter outer.length counter s) :=
    SameCallers.of_suffix [loop] [{ loop with counter := counter }] hloops
      hafter rfl hown
  rw [hlen]
  unfold undo
  split
  case isTrue hundo =>
    intro _
    constructor
    · exact hsame
    · intro _
      exists [.update outer.length
        (fun x => { x with counter := loop.counter })]
      constructor
      · exact Logs.single (loops_setLoopCounter _ _)
      · intro rest l hrest hl
        have hl' : Alike (env.mustUndo = true) rest l
            ({ loop with counter := counter } :: outer) := hafter ▸ hl
        rcases hl'.cons (hrest ▸ hown) with
          ⟨y, below, hly, hy, halike, hbelow⟩
        rw [hly]
        constructor
        · refine ⟨?_, trivial⟩
          show outer.length < (y :: below).length
          rw [List.length_cons, hbelow]
          exact Nat.lt_succ_self _
        · show Alike _ rest ((ArrayToken.update outer.length
            (fun x : LoopContext =>
              { x with counter := loop.counter })).apply (y :: below)) s.loops
          rw [<- hbelow, ArrayToken.apply_updateTop, hloops]
          apply halike.push
          intro h
          rw [hy h]
  case isFalse hundo =>
    intro _
    constructor
    · exact hsame
    · intro _
      exists []
      constructor
      · exact List.Forall₂.nil
      · intro rest l hrest hl
        have hl' : Alike (env.mustUndo = true) rest l
            ({ loop with counter := counter } :: outer) := hafter ▸ hl
        rcases hl'.cons (hrest ▸ hown) with
          ⟨y, below, hly, _, halike, _⟩
        constructor
        · trivial
        · show Alike _ rest l s.loops
          rw [hly, hloops]
          apply halike.push
          intro h
          exact absurd h hundo

end Changes

/-!
## Commands
-/

theorem quiet_loopCloseArgs (loop : LoopContext) (colonModified : Bool) :
    Quiet State.frame
      (loopCloseArgs loop colonModified : Exec (State W Reg) Unit) := by
  apply Quiet.ite (Quiet.pure ())
  apply Quiet.ite
  · apply Quiet.bind (quiet_onExpr _)
    intro _
    exact Quiet.ite (quiet_onExpr _) (Quiet.pure ())
  · apply Quiet.bind (quiet_onExpr _)
    intro _
    exact Quiet.ite (quiet_onExpr _) (Quiet.pure ())

/-- What a quiet computation has left of the loop stack. -/
theorem loops_of_quiet {α : Type} {m : Exec (State W Reg) α}
    {s t : State W Reg} {a : α}
    {tokens : List (State W Reg -> State W Reg)}
    (h : Quiet State.frame m) (hrun : m s = .ok a t tokens) :
    t.loops = s.loops ∧
      t.machine.loopStackFp = s.machine.loopStackFp := by
  have hframe := ((h s).ok hrun).state
  exact ⟨congrArg Prod.fst hframe, congrArg Prod.snd hframe⟩

theorem loopOpen_disciplined (s : State W Reg) :
    Leads (Disciplined strict env) (loopOpen env) s := by
  have hcomp : Composes (@Disciplined W Reg strict env) :=
    disciplined_composes
  apply Leads.bind hcomp (Disciplined.quiet (quiet_onExpr _) s)
  intro counter t _ _
  apply Leads.read hcomp
  dsimp only
  apply Leads.bind hcomp (Disciplined.quiet quiet_evalColon t)
  intro colon u _ _
  apply Leads.ite
  · intro _
    have hpush : forall v : State W Reg,
        Leads (Disciplined strict env) (do
          let s <- get
          setLoopStack
            ({ counter := counter
               pc := s.machine.macroPc
               braceLevel := t.editor.expr.braceLevel
               passThrough := decide (0 < colon) } :: s.editor.loopStack)
          emit (removeLoop s.editor.loopStack.length)) v := by
      intro v
      apply Leads.read hcomp
      exact pushLoop_disciplined _ v
    apply Leads.ite
    · intro _
      exact hpush u
    · intro _
      apply Leads.bind hcomp (Disciplined.quiet (quiet_onExpr _) u)
      intro _ v _ _
      exact hpush v
  · intro _
    exact Disciplined.quiet (quiet_setMode _) u

theorem loopClose_disciplined (s : State W Reg) :
    Leads (Disciplined strict env) (loopClose env) s := by
  have hcomp : Composes (@Disciplined W Reg strict env) :=
    disciplined_composes
  apply Leads.read hcomp
  split
  · exact Leads.throw hcomp _
  case h_2 loop own hown =>
    rcases loops_of_own hown with ⟨outer, hloops, hinside⟩
    apply Leads.ite
    · intro _
      exact Leads.throw hcomp _
    · intro _
      apply Leads.bind hcomp (Disciplined.quiet quiet_evalColon s)
      intro colon t _ ht
      rcases loops_of_quiet quiet_evalColon ht with ⟨htloops, htfp⟩
      apply Leads.bind hcomp
        (Disciplined.quiet (quiet_loopCloseArgs loop _) t)
      intro _ u _ hu
      rcases loops_of_quiet (quiet_loopCloseArgs loop _) hu with
        ⟨huloops, hufp⟩
      have hloopsu : u.loops = loop :: outer :=
        huloops.trans (htloops.trans hloops)
      have hinsideu : u.machine.loopStackFp <= outer.length := by
        rw [hufp, htfp]
        exact hinside
      apply Leads.read hcomp
      dsimp only
      apply Leads.ite
      · intro _
        exact popLoop_disciplined hloopsu hinsideu
      · intro _
        have hjump : Quiet State.frame (modify (State.mapMachine (fun m =>
            { m with macroPc := loop.pc })) : Exec (State W Reg) Unit) :=
          Quiet.modify (fun _ => rfl)
        apply Leads.bind hcomp (Disciplined.quiet hjump u)
        intro _ v _ hv
        cases hv
        apply Leads.ite
        · intro _
          exact Leads.pure hcomp ()
        · intro _
          exact countLoop_disciplined
            (s := u.mapMachine (fun m => { m with macroPc := loop.pc }))
            hloopsu hinsideu _

/-!
## Breaking a loop
-/

/-- What `;` does to the arguments and braces of the loop it has left. -/
def breakArgs (loop : LoopContext) : Exec Expressions Unit := do
  Expressions.discardArgs
  if loop.passThrough then
    pure ()
  else
    Expressions.braceReturn loop.braceLevel 0

/-- The part of `;` behind the decision to leave the loop. -/
def leaveLoop (env : Env) (loop : LoopContext) : Exec (State W Reg) Unit := do
  let s <- get
  setLoopStack s.editor.loopStack.tail
  onExpr (breakArgs loop)
  let s <- get
  emit (insertLoop s.editor.loopStack.length loop)
  setMode env Mode.parseOnlyLoop

theorem onExpr_breakArgs {α : Type} (loop : LoopContext)
    (k : Unit -> Exec (State W Reg) α) :
    (do
      onExpr (breakArgs loop)
      k ()) =
      (do
        onExpr Expressions.discardArgs
        if loop.passThrough then
          k ()
        else do
          onExpr (Expressions.braceReturn loop.braceLevel 0)
          k () : Exec (State W Reg) α) := by
  unfold breakArgs onExpr
  rw [zoom_bind (fun _ _ => rfl) (fun _ _ _ => rfl), bind_assoc]
  congr 1
  funext _
  cases loop.passThrough with
  | true =>
      rw [if_pos rfl, if_pos rfl, zoom_pure (fun _ => rfl), pure_bind]
  | false => rfl

theorem leaveLoop_eq (loop : LoopContext) :
    (leaveLoop env loop : Exec (State W Reg) Unit) = (do
      let s <- get
      setLoopStack s.editor.loopStack.tail
      onExpr Expressions.discardArgs
      if loop.passThrough then
        pure ()
      else
        onExpr (Expressions.braceReturn loop.braceLevel 0)
      let s <- get
      emit (insertLoop s.editor.loopStack.length loop)
      setMode env Mode.parseOnlyLoop) := by
  unfold leaveLoop
  congr 1
  funext s
  congr 1
  funext _
  exact onExpr_breakArgs loop (fun _ => do
    let s <- get
    emit (insertLoop s.editor.loopStack.length loop)
    setMode env Mode.parseOnlyLoop)

/-- The frame of the loop is gone before anything can fail, and its token comes
last.  So the arguments must not fail. -/
theorem leaveLoop_disciplined {s : State W Reg} {loop : LoopContext}
    {outer : List LoopContext} (hloops : s.loops = loop :: outer)
    (hown : s.machine.loopStackFp <= outer.length)
    (hargs : strict -> forall err e tokens,
      breakArgs loop s.editor.expr ≠ .error err e tokens) :
    Leads (Disciplined strict env) (leaveLoop env loop) s := by
  have htail : s.editor.loopStack.tail = outer := by
    show s.loops.tail = outer
    rw [hloops]
    rfl
  have hsame : forall t : State W Reg, t.loops = outer ->
      t.machine.loopStackFp = s.machine.loopStackFp -> SameCallers s t :=
    fun t ht hfp =>
      SameCallers.of_suffix [loop] [] hloops ht hfp hown
  unfold leaveLoop
  apply Leads.after_ok (a := s) (t := s) rfl
  apply Leads.after_ok rfl
  rw [htail]
  have hargsquiet : Quiet State.frame
      (onExpr (breakArgs loop) : Exec (State W Reg) Unit) := quiet_onExpr _
  have hquiet := hargsquiet
    (s.mapEditor (fun e => { e with loopStack := outer }))
  cases hrun : (onExpr (breakArgs loop) : Exec (State W Reg) Unit)
      (s.mapEditor (fun e => { e with loopStack := outer })) with
  | fault c => exact Leads.after_fault hrun
  | error err t tokens =>
      apply Leads.after_error hrun
      have hframe := (hquiet.error hrun).state
      intro _
      constructor
      · exact hsame t (congrArg Prod.fst hframe) (congrArg Prod.snd hframe)
      · intro hstrict
        rcases zoom_error hrun with ⟨e, tokens', herror⟩
        exact absurd herror (hargs hstrict err e tokens')
  | ok u t args =>
      apply Leads.after_ok hrun
      have hargsquiet := hquiet.ok hrun
      have hloopst : t.loops = outer := congrArg Prod.fst hargsquiet.state
      apply Leads.after_ok (a := t) (t := t) rfl
      apply Leads.after_ok rfl
      apply (quiet_setMode Mode.parseOnlyLoop t).mono
      intro v flags hflags
      have hloopsv : v.loops = outer :=
        (congrArg Prod.fst hflags.state).trans hloopst
      have hfpv : v.machine.loopStackFp = s.machine.loopStackFp :=
        (congrArg Prod.snd hflags.state).trans
          (congrArg Prod.snd hargsquiet.state)
      intro _
      constructor
      · exact hsame v hloopsv hfpv
      · intro _
        have hargsback : Reverted State.loops (env.mustUndo = true)
            s.machine.loopStackFp s t
            (insertLoop t.editor.loopStack.length loop :: args) :=
          Reverted.of_popped (hloopst.symm ▸ hloops) (loops_insertLoop _)
          (fun token hmem u =>
            congrArg Prod.fst (hargsquiet.tokens token hmem u))
        have hflagsback : Reverted State.loops (env.mustUndo = true)
            s.machine.loopStackFp t v flags := by
          apply Reverted.of_untouched
          constructor
          · exact congrArg Prod.fst hflags.state
          · intro token hmem u
            exact congrArg Prod.fst (hflags.tokens token hmem u)
        have hback := hargsback.trans hflagsback
        simpa using hback

/-- If `;` leaves the innermost loop then its arguments and braces can be
discarded without an error. -/
def BreakSucceeds (host : Host W Reg) (s : State W Reg) : Prop :=
  forall loop own reg v editor rc e tokens tokens',
    s.ownLoops = loop :: own ->
    host.find Table.globals (utf8 "_") s.editor = some reg ->
    host.getInteger reg s.editor = .ok v editor tokens ->
    Expressions.popNumCalc v editor.expr = .ok rc e tokens' ->
    (if 0 < s.machine.flags.modifierColon then ~~~rc else rc).slt 0 = false ->
    forall err e' tokens'', breakArgs loop e ≠ .error err e' tokens''

theorem evalColon_ok {s t : State W Reg} {colon : Nat}
    {tokens : List (State W Reg -> State W Reg)}
    (hrun : evalColon env s = .ok colon t tokens) :
    colon = s.machine.flags.modifierColon ∧ t.editor = s.editor := by
  have h : wp (evalColon env)
      (fun colon t => colon = s.machine.flags.modifierColon ∧
        t.editor = s.editor) (fun _ _ => True) (fun _ => True) s := by
    unfold evalColon undoFlags undo
    rw [wp_bind, wp_get, wp_ite]
    split
    case isTrue hzero => exact ⟨hzero.symm, rfl⟩
    case isFalse hpos =>
      by_cases hundo : env.mustUndo = true
      · simp [hundo, State.mapFlags]
      · simp [hundo, State.mapFlags]
  have hresult := wp_ok h hrun
  exact hresult

theorem loopBreak_disciplined (hhost : host.ReadsOnly Editor.loops)
    (s : State W Reg) (hbreak : strict -> BreakSucceeds host s) :
    Leads (Disciplined strict env) (loopBreak host env) s := by
  have hcomp : Composes (@Disciplined W Reg strict env) :=
    disciplined_composes
  apply Leads.read hcomp
  split
  · exact Leads.throw hcomp _
  case h_2 loop own hown =>
    split
    · trivial
    case h_2 reg hreg =>
      rcases loops_of_own hown with ⟨outer, hloops, hinside⟩
      have hread : Quiet State.frame
          (zoom editorLens (host.getInteger reg) :
            Exec (State W Reg) TecoInt) :=
        quiet_editor (hhost.getInteger reg)
      apply Leads.bind hcomp (Disciplined.quiet hread s)
      intro v t _ ht
      apply Leads.bind hcomp (Disciplined.quiet (quiet_onExpr _) t)
      intro rc u _ hu
      apply Leads.bind hcomp (Disciplined.quiet quiet_evalColon u)
      intro colon w _ hw
      apply Leads.ite
      · intro _
        exact Leads.pure hcomp ()
      · intro hleave
        have hloopsw : w.loops = loop :: outer := by
          rw [(loops_of_quiet quiet_evalColon hw).1,
            (loops_of_quiet (quiet_onExpr _) hu).1,
            (loops_of_quiet hread ht).1, hloops]
        have hfpw : w.machine.loopStackFp <= outer.length := by
          rw [(loops_of_quiet quiet_evalColon hw).2,
            (loops_of_quiet (quiet_onExpr _) hu).2,
            (loops_of_quiet hread ht).2]
          exact hinside
        have hargs : strict -> forall err e tokens,
            breakArgs loop w.editor.expr ≠ .error err e tokens := by
          intro hstrict
          rcases zoom_ok ht with ⟨editor, tokens, hget, heqt⟩
          rcases zoom_ok hu with ⟨e, tokens', hpop, hequ⟩
          rcases evalColon_ok hw with ⟨hcolon, heqw⟩
          rw [heqw, hequ]
          rw [heqt] at hpop
          rw [hcolon, hequ, heqt] at hleave
          have hout := Bool.eq_false_iff.mpr hleave
          exact hbreak hstrict loop own reg v editor rc e tokens tokens'
            hown hreg hget hpop hout
        have hrest : Leads (Disciplined strict env) (leaveLoop env loop) w :=
          leaveLoop_disciplined hloopsw hfpw hargs
        rw [leaveLoop_eq] at hrest
        exact hrest

end Parser
end SciTECO
