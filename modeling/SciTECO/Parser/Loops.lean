import SciTECO.Expressions.Commas
import SciTECO.Expressions.Retained
import SciTECO.Parser.Execution
import SciTECO.Parser.Frame
import SciTECO.Parser.SampleHost

/-!
# Counted loops

How often the body of a loop is executed, which arguments it can see, and what
the loop leaves behind.
-/

namespace SciTECO
namespace Parser

open Undoable
open Expressions (Call RunsAbove Above Grounded Settled onTop)

variable {W Reg : Type} {env : Env} {s : State W Reg}

/-- The flags in normal mode without a modifier. -/
def plainFlags : Flags :=
  { mode := Mode.normal, modifierColon := 0, modifierAt := false }

/-!
## The two ends of a loop
-/

/-- The loop that is opened behind `<` with the counter `n`, where `e` are the
stacks without the counter. -/
def openedLoop (s : State W Reg) (n : TecoInt) (e : Expressions) :
    LoopContext :=
  { counter := n
    pc := s.machine.macroPc
    braceLevel := e.braceLevel
    passThrough := false }

/-- At the first character of the body of the innermost loop.  Above the brace
of the loop there is nothing. -/
structure AtBody (loop : LoopContext) (outer : List LoopContext)
    (e : Expressions) (s : State W Reg) : Prop where
  loops : s.editor.loopStack = loop :: outer
  pc : s.machine.macroPc = loop.pc
  numbers : s.editor.expr.numbers = e.numbers
  operators : s.editor.expr.operators = Operator.brace :: e.operators
  braceLevel : s.editor.expr.braceLevel = loop.braceLevel + 1

/-- Behind the loop. -/
structure AfterLoop (close : Nat) (outer : List LoopContext)
    (e : Expressions) (s : State W Reg) : Prop where
  loops : s.editor.loopStack = outer
  pc : s.machine.macroPc = close + 1
  numbers : s.editor.expr.numbers = e.numbers
  operators : s.editor.expr.operators = e.operators
  braceLevel : s.editor.expr.braceLevel = e.braceLevel

theorem wp_evalColon_plain {post : Nat -> State W Reg -> Prop}
    {fail : TecoError -> State W Reg -> Prop} {bad : Fault -> Prop}
    (hflags : s.machine.flags = plainFlags) :
    wp (evalColon env) post fail bad s <-> post 0 s := by
  unfold evalColon
  rw [wp_bind, wp_get, hflags]
  exact Iff.rfl

theorem wp_loopOpen {n : TecoInt} {e : Expressions}
    {tokens : List (Expressions -> Expressions)}
    (hflags : s.machine.flags = plainFlags)
    (hcount : Expressions.popNumCalc (-1) s.editor.expr = .ok n e tokens)
    (hn : n ≠ 0) (hcomma : e.operators.head? ≠ some Operator.new) :
    wp (loopOpen env)
      (fun _ t => t.machine = s.machine ∧
        t.editor.loopStack =
          openedLoop s n e :: s.editor.loopStack ∧
        t.editor.expr.numbers = e.numbers ∧
        t.editor.expr.operators = Operator.brace :: e.operators ∧
        t.editor.expr.braceLevel = e.braceLevel + 1)
      (fun _ _ => True) (fun _ => True) s := by
  have hnew : Expressions.dropNew e.operators = e.operators := by
    cases hops : e.operators with
    | nil => rfl
    | cons op ops =>
        apply Expressions.dropNew_cons
        intro hop
        rw [hops, hop] at hcomma
        exact hcomma rfl
  unfold loopOpen onExpr
  rw [wp_bind, wp_zoom]
  apply wp_of_ok hcount
  rw [wp_bind, wp_get, wp_bind]
  dsimp only
  rw [wp_evalColon_plain (s := exprLens.set e s) hflags]
  rw [wp_ite, if_pos hn]
  simp only [Nat.lt_irrefl, decide_false, Bool.false_eq_true, if_false,
    wp_bind, wp_zoom, Expressions.braceOpen, Expressions.wp_popNew,
    Expressions.wp_pushOp, Expressions.wp_undoBraceLevel, wp_get,
    Expressions.wp_setBraceLevel, setLoopStack, wp_modify, wp_emit]
  refine ⟨rfl, rfl, rfl, ?_, rfl⟩
  show Operator.brace :: Expressions.dropNew e.operators = _
  rw [hnew]

/-- A loop of this invocation is the innermost one. -/
theorem ownLoops_cons {loop : LoopContext} {outer : List LoopContext}
    (hloops : s.editor.loopStack = loop :: outer)
    (hown : s.machine.loopStackFp <= outer.length) :
    exists own, s.ownLoops = loop :: own := by
  unfold State.ownLoops
  rw [hloops]
  have hcount : (loop :: outer).length - s.machine.loopStackFp =
      outer.length - s.machine.loopStackFp + 1 := by
    simp only [List.length_cons]
    omega
  rw [hcount, List.take_succ_cons]
  exact ⟨_, rfl⟩

/-- The end of an iteration of a loop without colons. -/
theorem wp_loopClose {loop : LoopContext} {outer : List LoopContext}
    {post : State W Reg -> Prop}
    (hflags : s.machine.flags = plainFlags)
    (hloops : s.editor.loopStack = loop :: outer)
    (hown : s.machine.loopStackFp <= outer.length)
    (hplain : loop.passThrough = false)
    (hlevel : s.editor.expr.braceLevel = loop.braceLevel + 1)
    (hpos : loop.counter.slt 0 = false)
    (hclose : wp Expressions.discardArgs
      (fun _ d =>
        (loop.counter = 1 ->
          wp Expressions.braceClose
            (fun _ d' => post
              { s with
                editor := { s.editor with expr := d', loopStack := outer } })
            (fun _ _ => True) (fun _ => True) d) ∧
        (loop.counter ≠ 1 ->
          post
            { s with
              editor :=
                { s.editor with
                  expr := d
                  loopStack :=
                    { loop with counter := loop.counter - 1 } :: outer }
              machine := { s.machine with macroPc := loop.pc } }))
      (fun _ _ => True) (fun _ => True) s.editor.expr) :
    wp (loopClose env) (fun _ t => post t) (fun _ _ => True)
      (fun _ => True) s := by
  rcases ownLoops_cons hloops hown with ⟨own, hown⟩
  unfold loopClose
  rw [wp_bind, wp_get, hown]
  dsimp only
  rw [hplain, if_neg (by simp [hlevel])]
  rw [wp_bind, wp_evalColon_plain hflags, wp_bind]
  unfold loopCloseArgs onExpr
  simp only [hplain, Bool.false_eq_true, if_false, Nat.lt_irrefl,
    decide_false, wp_bind, wp_zoom]
  apply wp_call hclose
  intro _ d hd
  by_cases hone : loop.counter = 1
  · simp only [hone, if_true, wp_zoom]
    apply wp_call (hd.1 hone)
    intro _ d' hd'
    simp only [wp_get, wp_bind, wp_emit, setLoopStack, wp_modify]
    have htail : s.editor.loopStack.tail = outer := by
      rw [hloops]
      rfl
    show post
      { s with
        editor :=
          { s.editor with expr := d', loopStack := s.editor.loopStack.tail } }
    rw [htail]
    exact hd'
  · simp only [hone, if_false, wp_pure, wp_get, wp_bind, wp_modify, hpos,
      Bool.false_eq_true]
    unfold undo
    rw [wp_ite]
    simp only [wp_emit, wp_pure, ite_self, setLoopCounter, State.mapEditor,
      State.mapMachine, exprLens, hloops, List.length_cons,
      Nat.add_sub_cancel, Nat.sub_self, List.modify_zero_cons]
    exact hd.2 hone

variable [DecidableEq Reg]

/-!
## Steps
-/

/-- A character of the macro is executed without an error. -/
def Steps (host : Host W Reg) (env : Env) (text : Bytes)
    (s t : State W Reg) : Prop :=
  exists tokens, stepCharacter host env text s = .ok () t tokens

/-- The next character is a command without modifiers. -/
structure AtCommand (text : Bytes) (c : Char) (s : State W Reg) : Prop where
  current : s.machine.current = MainState.start
  flags : s.machine.flags = plainFlags
  next : exists rest, text.drop s.machine.macroPc = c.toUInt8 :: rest

/-- Behind the next character. -/
def advance (s : State W Reg) : State W Reg :=
  s.mapMachine (fun m => { m with macroPc := m.macroPc + 1 })

section Commands

variable {host : Host W Reg} {text : Bytes}

theorem wp_transition {transitions : Char -> Option Transition} {c : Char}
    {callback : Callback} {colon : Nat} {chr : Gunichar}
    {post : MainState -> State W Reg -> Prop}
    {fail : TecoError -> State W Reg -> Prop} {bad : Fault -> Prop}
    (hc : ascii chr = some c)
    (hentry : transitions c = some (simple callback colon))
    (hflags : s.machine.flags = plainFlags) :
    wp (transitionInput host env transitions chr) post fail bad s <->
      wp (runCallback host env callback)
        (fun _ t => post MainState.start t) fail bad s := by
  have hmode : s.mode = Mode.normal := by
    rw [State.mode, hflags]
    rfl
  unfold transitionInput
  rw [wp_bind, wp_get, hc]
  simp [hentry, simple, hflags, hmode, plainFlags]

theorem wp_startInput_open {post : MainState -> State W Reg -> Prop}
    {fail : TecoError -> State W Reg -> Prop} {bad : Fault -> Prop}
    (hflags : s.machine.flags = plainFlags) :
    wp (startInput host env '<'.toNat) post fail bad s <->
      wp (loopOpen env) (fun _ t => post MainState.start t) fail bad s := by
  have hmode : s.mode = Mode.normal := by
    rw [State.mode, hflags]
    rfl
  have hentry : startTransitions '<' = some (simple .loopOpen 1) := rfl
  have h : wp (startTransition host env '<'.toNat) post fail bad s <->
      wp (runCallback host env .loopOpen)
        (fun _ t => post MainState.start t) fail bad s :=
    wp_transition rfl hentry hflags
  apply Iff.trans _ h
  unfold startInput
  rw [wp_bind, wp_get]
  show wp (if s.machine.flags.modifierAt then _ else _) _ _ _ _ <-> _
  rw [hflags, hmode]
  rfl

theorem wp_startInput_close {post : MainState -> State W Reg -> Prop}
    {fail : TecoError -> State W Reg -> Prop} {bad : Fault -> Prop}
    (hflags : s.machine.flags = plainFlags) :
    wp (startInput host env '>'.toNat) post fail bad s <->
      wp (loopClose env) (fun _ t => post MainState.start t) fail bad s := by
  have hmode : s.mode = Mode.normal := by
    rw [State.mode, hflags]
    rfl
  have hentry : startTransitions '>' = some (simple .loopClose 1) := rfl
  have h : wp (startTransition host env '>'.toNat) post fail bad s <->
      wp (runCallback host env .loopClose)
        (fun _ t => post MainState.start t) fail bad s :=
    wp_transition rfl hentry hflags
  apply Iff.trans _ h
  unfold startInput
  rw [wp_bind, wp_get]
  show wp (if s.machine.flags.modifierAt then _ else _) _ _ _ _ <-> _
  rw [hflags, hmode]
  rfl

/-- A command whose callback leaves the machine in the start state. -/
theorem wp_stepCommand {c : Char} {post : State W Reg -> Prop}
    (hat : AtCommand text c s)
    (hchr : forall rest, utf8GetChar (c.toUInt8 :: rest) = c.toNat)
    (hskip : utf8Skip c.toUInt8 = 1)
    (hinput : wp (startInput host env c.toNat)
      (fun next t => next = t.machine.current ∧ post t)
      (fun _ _ => True) (fun _ => True) (advance s)) :
    wp (stepCharacter host env text) (fun _ t => post t)
      (fun _ _ => True) (fun _ => True) s := by
  rcases hat.next with ⟨rest, hrest⟩
  unfold stepCharacter
  rw [wp_bind, wp_get]
  cases host.check s.editor with
  | some e => trivial
  | none =>
      dsimp only
      rw [wp_bind, wp_modify, hrest, hchr, List.headD_cons, hskip]
      unfold machineInput
      rw [wp_bind, wp_get, wp_bind]
      have hcurrent : (advance s).machine.current = MainState.start :=
        hat.current
      show wp (stateInput host env (advance s).machine.current c.toNat)
        _ _ _ (advance s)
      rw [hcurrent]
      apply wp_call hinput
      intro next t ht
      rcases ht with ⟨hnext, hpost⟩
      unfold enterState
      rw [wp_bind, wp_get, wp_ite, if_pos hnext]
      exact hpost

/-!
## Executing the body
-/

/-- What the body leaves on the operator stack will be discarded: no operator
waits for its right operand, no comma for the second argument, and there are as
many braces as before. -/
structure Tidy (before after : Expressions) : Prop where
  noOperator : forall op, after.operators.head? ≠ some (Operator.real op)
  noComma : Operator.new ∉
    after.operators.takeWhile (fun op => op != Operator.brace)
  noBrace : after.operators.count Operator.brace =
    before.operators.count Operator.brace

/-- At the `>` of the innermost loop. -/
structure AtEnd (text : Bytes) (close : Nat) (loop : LoopContext)
    (outer : List LoopContext) (s : State W Reg) : Prop where
  command : AtCommand text '>' s
  pc : s.machine.macroPc = close
  loops : s.editor.loopStack = loop :: outer

/-- A step within the body.  The loop is not left, by whatever command, and the
body is not begun again. -/
structure Within (host : Host W Reg) (env : Env) (text : Bytes)
    (close : Nat) (loop : LoopContext) (outer : List LoopContext)
    (s t : State W Reg) : Prop where
  step : Steps host env text s t
  notAtEnd : ¬ AtEnd text close loop outer s
  inLoop : exists inner, t.editor.loopStack = inner ++ loop :: outer
  noRestart : ¬ (t.editor.loopStack = loop :: outer ∧
    t.machine.macroPc = loop.pc)

/-- The body of a loop is executed once, without an error.  It is well nested:
its calls close no brace that was open before it, and it leaves none open. -/
structure Pass (host : Host W Reg) (env : Env) (text : Bytes)
    (close : Nat) (loop : LoopContext) (outer : List LoopContext)
    (s t : State W Reg) : Prop where
  loops : s.editor.loopStack = loop :: outer
  pc : s.machine.macroPc = loop.pc
  run : Relation.ReflTransGen (Within host env text close loop outer) s t
  atEnd : AtEnd text close loop outer t
  own : t.machine.loopStackFp <= outer.length
  braceLevel : t.editor.expr.braceLevel = s.editor.expr.braceLevel
  nested : exists calls, RunsAbove s.editor.expr.braceLevel calls
    s.editor.expr t.editor.expr

/-- `k` iterations: the body is executed, and the `>` succeeds.  The frame of
the loop is `loop` up to its counter.  The stacks at the two ends of every
execution of the body satisfy `cond`. -/
inductive Passes (host : Host W Reg) (env : Env) (text : Bytes)
    (cond : Expressions -> Expressions -> Prop) (close : Nat)
    (loop : LoopContext) (outer : List LoopContext) (s : State W Reg) :
    Nat -> State W Reg -> Prop where
  | none : Passes host env text cond close loop outer s 0 s
  | next {k : Nat} {t u v : State W Reg} {counter : TecoInt}
      (hpasses : Passes host env text cond close loop outer s k t)
      (hpass : Pass host env text close { loop with counter := counter }
        outer t u)
      (hcond : cond t.editor.expr u.editor.expr)
      (hend : Steps host env text u v) :
      Passes host env text cond close loop outer s (k + 1) v

/-- What the body has pushed, on the top of the stacks below the loop. -/
theorem Pass.stacks {env : Env} {close : Nat} {loop : LoopContext}
    {outer : List LoopContext} {e : Expressions} {t u : State W Reg}
    (h : Pass host env text close loop outer t u)
    (hbody : AtBody loop outer e t) :
    exists own own', t.editor.expr = onTop e own ∧
      u.editor.expr = onTop e own' ∧
      own.operators = [Operator.brace] ∧
      Above (loop.braceLevel + 1) own' ∧
      forall calls, RunsAbove (loop.braceLevel + 1) calls
        t.editor.expr u.editor.expr ->
        forall other, RunsAbove (loop.braceLevel + 1) calls
          (onTop other own) (onTop other own') := by
  have hfloor := hbody.braceLevel
  let own : Expressions :=
    { numbers := []
      operators := [Operator.brace]
      numSign := t.editor.expr.numSign
      braceLevel := t.editor.expr.braceLevel }
  have hown : t.editor.expr = onTop e own := by
    have hnumbers := hbody.numbers
    have hoperators := hbody.operators
    cases hexpr : t.editor.expr with
    | mk numbers operators numSign braceLevel =>
        rw [hexpr] at hnumbers hoperators
        simp only [onTop, own, hexpr, List.nil_append, List.singleton_append]
        rw [<- hnumbers, <- hoperators]
  have habove : Above (loop.braceLevel + 1) own := by
    constructor
    · exact Nat.le_of_eq hfloor.symm
    · constructor
      · exact ⟨[], rfl⟩
      · rfl
      · show t.editor.expr.braceLevel - (loop.braceLevel + 1) < 1
        omega
      · rfl
  rcases h.nested with ⟨calls, hcalls⟩
  rw [hfloor, hown] at hcalls
  rcases Expressions.runsAbove_onTop calls habove hcalls with
    ⟨own', habove', hu, _⟩
  refine ⟨own, own', hown, hu, rfl, habove', ?_⟩
  intro calls' hcalls' other
  rw [hown] at hcalls'
  rcases Expressions.runsAbove_onTop calls' habove hcalls' with
    ⟨own'', _, hu', hother⟩
  have hsame : own' = own'' := by
    have heq : onTop e own' = onTop e own'' := hu.symm.trans hu'
    have hnumbers := congrArg Expressions.numbers heq
    have hoperators := congrArg Expressions.operators heq
    have hsign := congrArg Expressions.numSign heq
    have hlevel := congrArg Expressions.braceLevel heq
    simp only [Expressions.onTop_numbers, Expressions.onTop_operators,
      Expressions.onTop_numSign, Expressions.onTop_braceLevel,
      List.append_cancel_right_eq] at hnumbers hoperators hsign hlevel
    cases own'
    cases own''
    simp_all
  rw [hsame]
  exact hother other

/-- The end of the iteration discards what the body has pushed. -/
theorem Tidy.settled {e own own' t u : Expressions}
    (h : Tidy t u) (ht : t = onTop e own) (hu : u = onTop e own')
    (hown : own.operators = [Operator.brace])
    {closable level : Nat} (hgrounded : Grounded closable level own') :
    Settled own' := by
  rcases hgrounded.bottom with ⟨ops, hops⟩
  have hcount : own'.operators.count Operator.brace = 1 := by
    have hsame := h.noBrace
    rw [ht, hu, Expressions.onTop_operators, Expressions.onTop_operators,
      hown, List.count_append, List.count_append,
      List.count_singleton_self] at hsame
    omega
  have hnobrace : Operator.brace ∉ ops := by
    rw [hops, List.count_append, List.count_singleton_self] at hcount
    apply List.count_eq_zero.mp
    omega
  constructor
  · intro hmem
    apply h.noComma
    have htake : u.operators.takeWhile (fun op => op != Operator.brace) =
        ops := by
      rw [hu, Expressions.onTop_operators, hops, List.append_assoc,
        List.takeWhile_append_of_pos]
      · simp
      · intro op hop
        rw [bne_iff_ne]
        intro heq
        rw [heq] at hop
        exact hnobrace hop
    rw [htake]
    rw [hops] at hmem
    rcases List.mem_append.mp hmem with hmem | hmem
    · exact hmem
    · cases List.mem_singleton.mp hmem
  · intro op hhead
    apply h.noOperator op
    rw [hu, hgrounded.head_onTop]
    exact hhead
  · exact hcount

theorem wp_braceClose_brace {d : Expressions} {post : Expressions -> Prop}
    {ops : List Operator} {level : Nat}
    (hops : d.operators = Operator.brace :: ops)
    (hlevel : d.braceLevel = level + 1)
    (hpost : post { d with operators := ops, braceLevel := level }) :
    wp Expressions.braceClose (fun _ d' => post d') (fun _ _ => True)
      (fun _ => True) d := by
  unfold Expressions.braceClose
  rw [wp_bind, wp_get, wp_ite, if_neg (by rw [hlevel]; simp), wp_bind,
    Expressions.wp_undoBraceLevel, wp_bind, Expressions.wp_setBraceLevel,
    hlevel, Nat.add_sub_cancel]
  have hbrace : ({ d with braceLevel := level } : Expressions).operators =
      [] ++ Operator.brace :: ops := hops
  rw [Expressions.wp_eval_true_brace hbrace (by simp)]
  exact hpost

/-- One iteration: the frame of the loop is counted down, or removed. -/
theorem Pass.iteration {close : Nat} {loop : LoopContext}
    {outer : List LoopContext} {e : Expressions} {t u v : State W Reg}
    (hpass : Pass host env text close loop outer t u)
    (hbody : AtBody loop outer e t)
    (htidy : Tidy t.editor.expr u.editor.expr)
    (hend : Steps host env text u v)
    (hplain : loop.passThrough = false)
    (hlevel : loop.braceLevel = e.braceLevel)
    (hpos : loop.counter.slt 0 = false) :
    (loop.counter = 1 -> AfterLoop close outer e v) ∧
      (loop.counter ≠ 1 ->
        AtBody { loop with counter := loop.counter - 1 } outer e v) := by
  rcases hpass.stacks hbody with
    ⟨own, own', ht, hu, hown, habove, _⟩
  have hsettled := htidy.settled ht hu hown habove.grounded
  have hulevel : u.editor.expr.braceLevel = loop.braceLevel + 1 :=
    hpass.braceLevel.trans hbody.braceLevel
  have hownlevel : own'.braceLevel = loop.braceLevel + 1 := by
    rw [<- hulevel, hu]
    rfl
  have hcommand := hpass.atEnd.command
  let done : State W Reg -> Prop := fun w =>
    (loop.counter = 1 -> AfterLoop close outer e w) ∧
      (loop.counter ≠ 1 ->
        AtBody { loop with counter := loop.counter - 1 } outer e w)
  have hclose : wp (loopClose env)
      (fun _ w => MainState.start = w.machine.current ∧ done w)
      (fun _ _ => True) (fun _ => True) (advance u) := by
    apply wp_loopClose (s := advance u) hcommand.flags hpass.atEnd.loops
      hpass.own hplain hulevel hpos
    show wp Expressions.discardArgs _ _ _ u.editor.expr
    rw [hu]
    apply wp_call (hsettled.discardArgs_onTop habove.grounded)
    intro _ d hd
    rcases hd with ⟨hops, hnumbers, hdlevel⟩
    rw [hownlevel] at hdlevel
    constructor
    · intro hone
      apply wp_braceClose_brace hops hdlevel
      constructor
      · exact hcommand.current.symm
      · constructor
        · intro _
          constructor
          · rfl
          · show u.machine.macroPc + 1 = close + 1
            rw [hpass.atEnd.pc]
          · exact hnumbers
          · rfl
          · exact hlevel
        · intro hne
          exact absurd hone hne
    · intro hne
      constructor
      · exact hcommand.current.symm
      · constructor
        · intro hone
          exact absurd hone hne
        · intro _
          exact ⟨rfl, rfl, hnumbers, hops, hdlevel⟩
  have hinput : wp (startInput host env '>'.toNat)
      (fun next w => next = w.machine.current ∧ done w)
      (fun _ _ => True) (fun _ => True) (advance u) := by
    rw [wp_startInput_close (s := advance u) hcommand.flags]
    exact hclose
  have hstep := wp_stepCommand hcommand (fun _ => rfl) rfl hinput
  rcases hend with ⟨tokens, hrun⟩
  have h := wp_ok hstep hrun
  exact h

/-- The beginning of a loop. -/
theorem loopOpen_atBody {n : TecoInt} {e : Expressions}
    {tokens : List (Expressions -> Expressions)} {t : State W Reg}
    (hcommand : AtCommand text '<' s)
    (hcount : Expressions.popNumCalc (-1) s.editor.expr = .ok n e tokens)
    (hn : n ≠ 0) (hcomma : e.operators.head? ≠ some Operator.new)
    (hstep : Steps host env text s t) :
    AtBody (openedLoop (advance s) n e) s.editor.loopStack e t := by
  have hopen : wp (loopOpen env)
      (fun _ w => MainState.start = w.machine.current ∧
        AtBody (openedLoop (advance s) n e) s.editor.loopStack e w)
      (fun _ _ => True) (fun _ => True) (advance s) := by
    apply wp_call (wp_loopOpen (s := advance s) hcommand.flags hcount hn
      hcomma)
    intro _ w hw
    rcases hw with ⟨hmachine, hloops, hnumbers, hops, hlevel⟩
    constructor
    · rw [hmachine]
      exact hcommand.current.symm
    · constructor
      · exact hloops
      · rw [hmachine]
        rfl
      · exact hnumbers
      · exact hops
      · exact hlevel
  have hinput : wp (startInput host env '<'.toNat)
      (fun next w => next = w.machine.current ∧
        AtBody (openedLoop (advance s) n e) s.editor.loopStack e w)
      (fun _ _ => True) (fun _ => True) (advance s) := by
    rw [wp_startInput_open (s := advance s) hcommand.flags]
    exact hopen
  have hwp := wp_stepCommand hcommand (fun _ => rfl) rfl hinput
  rcases hstep with ⟨tokens', hrun⟩
  have h := wp_ok hwp hrun
  exact h

/-!
## The whole loop
-/

/-- The counter after `k` iterations. -/
def LoopContext.after (loop : LoopContext) (k : Nat) : LoopContext :=
  { loop with counter := BitVec.ofNat 64 (loop.counter.toNat - k) }

theorem counter_pos_lt {n : TecoInt} (hn : (0 : TecoInt).slt n = true) :
    0 < n.toNat ∧ n.toNat < 2 ^ 63 := by
  have hint : (0 : TecoInt).toInt < n.toInt := by
    simpa [BitVec.slt] using hn
  have hlt := n.isLt
  have hzero : (0 : TecoInt).toInt = 0 := rfl
  rw [hzero, BitVec.toInt_eq_toNat_cond] at hint
  split at hint
  · omega
  · omega

theorem LoopContext.after_counter {loop : LoopContext} {k : Nat}
    (hn : (0 : TecoInt).slt loop.counter = true)
    (hk : k < loop.counter.toNat) :
    (loop.after k).counter.slt 0 = false ∧
      ((loop.after k).counter = 1 <-> k + 1 = loop.counter.toNat) ∧
      { loop.after k with counter := (loop.after k).counter - 1 } =
        loop.after (k + 1) := by
  rcases counter_pos_lt hn with ⟨hpos, hlt⟩
  have htoNat : (loop.after k).counter.toNat = loop.counter.toNat - k := by
    unfold LoopContext.after
    rw [BitVec.toNat_ofNat, Nat.mod_eq_of_lt]
    omega
  constructor
  · have hint : (0 : TecoInt).toInt <= (loop.after k).counter.toInt := by
      have hzero : (0 : TecoInt).toInt = 0 := rfl
      rw [hzero, BitVec.toInt_eq_toNat_of_lt (by omega)]
      omega
    rw [BitVec.slt, decide_eq_false_iff_not]
    omega
  · constructor
    · constructor
      · intro hone
        rw [hone] at htoNat
        have : (1 : TecoInt).toNat = 1 := rfl
        omega
      · intro hlast
        apply BitVec.eq_of_toNat_eq
        rw [htoNat]
        show _ = 1
        omega
    · unfold LoopContext.after at htoNat ⊢
      simp only [LoopContext.mk.injEq, and_self, and_true]
      apply BitVec.eq_of_toNat_eq
      rw [BitVec.toNat_sub, htoNat, BitVec.toNat_ofNat]
      have : (1 : TecoInt).toNat = 1 := rfl
      rw [this]
      omega

/-- The state after `k` iterations of a loop which is to be executed as often
as its counter says. -/
inductive Iterated (close : Nat) (loop : LoopContext)
    (outer : List LoopContext) (e : Expressions) (k : Nat)
    (t : State W Reg) : Prop where
  | body (hk : k < loop.counter.toNat)
      (h : AtBody (loop.after k) outer e t)
  | done (hk : k = loop.counter.toNat) (h : AfterLoop close outer e t)

theorem Passes.iterated {close : Nat} {loop : LoopContext}
    {outer : List LoopContext} {e : Expressions} {k : Nat}
    {s t : State W Reg} (hplain : loop.passThrough = false)
    (hlevel : loop.braceLevel = e.braceLevel)
    (hn : (0 : TecoInt).slt loop.counter = true)
    (hbody : AtBody loop outer e s)
    (h : Passes host env text Tidy close loop outer s k t) :
    Iterated close loop outer e k t := by
  induction h with
  | none =>
      apply Iterated.body (counter_pos_lt hn).1
      have hzero : loop.after 0 = loop := by
        unfold LoopContext.after
        rw [Nat.sub_zero, BitVec.ofNat_toNat, BitVec.setWidth_eq]
      rw [hzero]
      exact hbody
  | @next k t u v counter _ hpass htidy hend ih =>
      cases ih with
      | done _ hdone =>
          exfalso
          have hloops := hpass.loops
          rw [hdone.loops] at hloops
          have hlen := congrArg List.length hloops
          simp at hlen
      | body hk hbody =>
          have hframe : { loop with counter := counter } = loop.after k := by
            have hloops := hpass.loops
            rw [hbody.loops] at hloops
            exact (List.cons.inj hloops).1.symm
          rw [hframe] at hpass
          rcases LoopContext.after_counter hn hk with ⟨hpos, hone, hnext⟩
          have hiter := hpass.iteration hbody htidy hend hplain hlevel hpos
          by_cases hlast : k + 1 = loop.counter.toNat
          · exact Iterated.done hlast (hiter.1 (hone.mpr hlast))
          · apply Iterated.body (by omega)
            rw [<- hnext]
            exact hiter.2 (fun heq => hlast (hone.mp heq))

/-- `n<body>` where the body is well nested, every execution of it succeeds and
what it leaves is tidy at the `>`.  After `k` iterations the loop is still open
if `k < n`, with the stacks as at the beginning of the body, and it is closed if
`k = n`, with everything as it was before the loop; there are no further
iterations.  The body neither reads nor changes what is below the brace of the
loop.  If every execution of the body gets to the `>` and beyond, there are `n`
iterations. -/
theorem countedLoop {n : TecoInt} {e : Expressions}
    {tokens : List (Expressions -> Expressions)} {s₁ : State W Reg}
    (close : Nat)
    (hreach : Expressions.Reachable (fun _ _ => True) s.editor.expr)
    (hcommand : AtCommand text '<' s)
    (hcount : Expressions.popNumCalc (-1) s.editor.expr = .ok n e tokens)
    (hn : (0 : TecoInt).slt n = true)
    (hopen : Steps host env text s s₁) :
    let loop := openedLoop (advance s) n e
    let outer := s.editor.loopStack
    let after := Passes host env text Tidy close loop outer s₁
    (forall k t, after k t -> Iterated close loop outer e k t) ∧
    (forall k t u counter, after k t ->
      Pass host env text close { loop with counter := counter } outer t u ->
      exists own own', t.editor.expr = onTop e own ∧
        u.editor.expr = onTop e own' ∧
        forall calls, RunsAbove (e.braceLevel + 1) calls t.editor.expr
            u.editor.expr ->
          forall other, RunsAbove (e.braceLevel + 1) calls
            (onTop other own) (onTop other own')) ∧
    ((forall k t, k < n.toNat -> after k t ->
        exists u v, Pass host env text close (loop.after k) outer t u ∧
          Tidy t.editor.expr u.editor.expr ∧ Steps host env text u v) ->
      exists t, after n.toNat t ∧ AfterLoop close outer e t) := by
  intro loop outer after
  have hnonzero : n ≠ 0 := by
    intro hzero
    rw [hzero] at hn
    cases hn
  have hcomma : e.operators.head? ≠ some Operator.new := by
    apply (Expressions.reachable_separated hreach).popNumCalc_head hcount
    intro himplied
    rw [himplied] at hn
    cases hn
  have hbody := loopOpen_atBody hcommand hcount hnonzero hcomma hopen
  have hiterated : forall k t, after k t ->
      Iterated close loop outer e k t :=
    fun k t h => h.iterated rfl rfl hn hbody
  refine ⟨hiterated, ?_, ?_⟩
  · intro k t u counter hafter hpass
    cases hiterated k t hafter with
    | done _ hdone =>
        exfalso
        have hloops := hpass.loops
        rw [hdone.loops] at hloops
        have hlen := congrArg List.length hloops
        simp at hlen
    | body _ hbody =>
        have hframe : { loop with counter := counter } = loop.after k := by
          have hloops := hpass.loops
          rw [hbody.loops] at hloops
          exact (List.cons.inj hloops).1.symm
        rw [hframe] at hpass
        rcases hpass.stacks hbody with ⟨own, own', ht, hu, _, _, hunseen⟩
        exact ⟨own, own', ht, hu, hunseen⟩
  · intro hcomplete
    have hall : forall k, k <= n.toNat -> exists t, after k t := by
      intro k
      induction k with
      | zero =>
          intro _
          exact ⟨s₁, Passes.none⟩
      | succ k ih =>
          intro hk
          rcases ih (by omega) with ⟨t, ht⟩
          rcases hcomplete k t (by omega) ht with
            ⟨u, v, hpass, htidy, hend⟩
          exact ⟨v, Passes.next ht hpass htidy hend⟩
    rcases hall n.toNat (Nat.le_refl _) with ⟨t, ht⟩
    refine ⟨t, ht, ?_⟩
    cases hiterated _ t ht with
    | body hk _ => exact absurd hk (Nat.lt_irrefl _)
    | done _ hdone => exact hdone

end Commands

/-!
## Two loops
-/

/-- A body of which every step is one that stays in the loop. -/
theorem within_sample {text : Bytes} {close count : Nat}
    {loop : LoopContext} {outer : List LoopContext}
    (hstep : Steps sampleHost (sampleEnv text text.length 0) text
      (sampleSteps text count) (sampleSteps text (count + 1)))
    (hclose : (sampleSteps text count).machine.macroPc ≠ close)
    (hloops : (sampleSteps text (count + 1)).editor.loopStack =
      loop :: outer)
    (hpc : (sampleSteps text (count + 1)).machine.macroPc ≠ loop.pc) :
    Within sampleHost (sampleEnv text text.length 0) text close loop outer
      (sampleSteps text count) (sampleSteps text (count + 1)) := by
  constructor
  · exact hstep
  · intro hend
    exact hclose hend.pc
  · exact ⟨[], hloops⟩
  · intro hrestart
    exact hpc hrestart.2

/-- The loop of a text that begins with `2<`. -/
def sampleLoop : LoopContext :=
  { counter := 2, pc := 2, braceLevel := 0, passThrough := false }

def tidyText : Bytes := utf8 "2<1>"

theorem passes_tidy :
    Passes sampleHost (sampleEnv tidyText 4 0) tidyText Tidy 3 sampleLoop []
      (sampleSteps tidyText 2) 2 (sampleSteps tidyText 6) := by
  have hdigit : forall k, forall s t : Expressions,
      Expressions.addDigit 10 '1'.toNat s = .ok () t k ->
      RunsAbove s.braceLevel [.addDigit 10 '1'.toNat] s t := by
    intro k s t hrun
    exact ⟨trivial, t, k, hrun, rfl⟩
  have htidy : forall s t : Expressions,
      s.operators = [.brace] -> t.operators = [.number, .brace] ->
      Tidy s t := by
    intro s t hs ht
    constructor
    · rw [ht]
      simp
    · rw [ht]
      simp
    · rw [hs, ht]
      simp
  have hfirst : Pass sampleHost (sampleEnv tidyText 4 0) tidyText 3
      { sampleLoop with counter := 2 } []
      (sampleSteps tidyText 2) (sampleSteps tidyText 3) := by
    constructor
    · rfl
    · rfl
    · exact Relation.ReflTransGen.single
        (within_sample ⟨_, rfl⟩ (by decide) rfl (by decide))
    · exact ⟨⟨rfl, rfl, _, rfl⟩, rfl, rfl⟩
    · exact Nat.le_refl 0
    · rfl
    · exact ⟨_, hdigit _ _ _ rfl⟩
  have hsecond : Pass sampleHost (sampleEnv tidyText 4 0) tidyText 3
      { sampleLoop with counter := 1 } []
      (sampleSteps tidyText 4) (sampleSteps tidyText 5) := by
    constructor
    · rfl
    · rfl
    · exact Relation.ReflTransGen.single
        (within_sample ⟨_, rfl⟩ (by decide) rfl (by decide))
    · exact ⟨⟨rfl, rfl, _, rfl⟩, rfl, rfl⟩
    · exact Nat.le_refl 0
    · rfl
    · exact ⟨_, hdigit _ _ _ rfl⟩
  have hone : Passes sampleHost (sampleEnv tidyText 4 0) tidyText Tidy 3
      sampleLoop [] (sampleSteps tidyText 2) 1 (sampleSteps tidyText 4) :=
    Passes.next Passes.none hfirst (htidy _ _ rfl rfl) ⟨_, rfl⟩
  exact Passes.next hone hsecond (htidy _ _ rfl rfl) ⟨_, rfl⟩

/-- After two iterations of `2<1>` the stacks are empty again. -/
theorem countedLoop_tidy :
    AfterLoop 3 [] Expressions.initial (sampleSteps tidyText 6) := by
  have hreach : Expressions.Reachable (fun _ _ => True)
      (sampleSteps tidyText 1).editor.expr :=
    Relation.ReflTransGen.refl.tail
      ⟨.addDigit 10 '2'.toNat, _, trivial, rfl⟩
  have hcount : exists tokens, Expressions.popNumCalc (-1)
      (sampleSteps tidyText 1).editor.expr =
        .ok 2 Expressions.initial tokens := ⟨_, rfl⟩
  rcases hcount with ⟨tokens, hcount⟩
  have hopen : Steps sampleHost (sampleEnv tidyText 4 0) tidyText
      (sampleSteps tidyText 1) (sampleSteps tidyText 2) := ⟨_, rfl⟩
  have h := (countedLoop 3 hreach ⟨rfl, rfl, _, rfl⟩ hcount (by decide)
    hopen).1 2 (sampleSteps tidyText 6) passes_tidy
  cases h with
  | body hk _ => exact absurd hk (by decide)
  | done _ h => exact h

def staleText : Bytes := utf8 "2<1+>"

/-- The body of `2<1+>` ends with an operator.  The `>` discards nothing, and
the loop leaves the operator, a number and its brace on the stacks. -/
theorem countedLoop_stale :
    Passes sampleHost (sampleEnv staleText 5 0) staleText (fun _ _ => True)
      4 sampleLoop [] (sampleSteps staleText 2) 2
      (sampleSteps staleText 8) ∧
    (sampleSteps staleText 1).editor.expr.operators = [.number] ∧
    (sampleSteps staleText 8).editor.expr.operators =
      [.real .add, .number, .brace] ∧
    (sampleSteps staleText 8).editor.expr.numbers = [2] ∧
    (sampleSteps staleText 8).editor.loopStack = [] := by
  have hcalls : forall k l, forall s t u : Expressions,
      Expressions.addDigit 10 '1'.toNat s = .ok () t k ->
      Expressions.pushCalc .add t = .ok () u l ->
      RunsAbove s.braceLevel [.addDigit 10 '1'.toNat, .pushCalc .add] s u := by
    intro k l s t u ht hu
    exact ⟨trivial, t, k, ht, trivial, u, l, hu, rfl⟩
  have hfirst : Pass sampleHost (sampleEnv staleText 5 0) staleText 4
      { sampleLoop with counter := 2 } []
      (sampleSteps staleText 2) (sampleSteps staleText 4) := by
    constructor
    · rfl
    · rfl
    · exact (Relation.ReflTransGen.single
        (within_sample ⟨_, rfl⟩ (by decide) rfl (by decide))).tail
        (within_sample ⟨_, rfl⟩ (by decide) rfl (by decide))
    · exact ⟨⟨rfl, rfl, _, rfl⟩, rfl, rfl⟩
    · exact Nat.le_refl 0
    · rfl
    · exact ⟨_, hcalls _ _ _ _ _ rfl rfl⟩
  have hsecond : Pass sampleHost (sampleEnv staleText 5 0) staleText 4
      { sampleLoop with counter := 1 } []
      (sampleSteps staleText 5) (sampleSteps staleText 7) := by
    constructor
    · rfl
    · rfl
    · exact (Relation.ReflTransGen.single
        (within_sample ⟨_, rfl⟩ (by decide) rfl (by decide))).tail
        (within_sample ⟨_, rfl⟩ (by decide) rfl (by decide))
    · exact ⟨⟨rfl, rfl, _, rfl⟩, rfl, rfl⟩
    · exact Nat.le_refl 0
    · rfl
    · exact ⟨_, hcalls _ _ _ _ _ rfl rfl⟩
  constructor
  · have hone : Passes sampleHost (sampleEnv staleText 5 0) staleText
        (fun _ _ => True) 4 sampleLoop [] (sampleSteps staleText 2) 1
        (sampleSteps staleText 5) :=
      Passes.next Passes.none hfirst trivial ⟨_, rfl⟩
    exact Passes.next hone hsecond trivial ⟨_, rfl⟩
  · exact ⟨rfl, rfl, rfl, rfl⟩

end Parser
end SciTECO
