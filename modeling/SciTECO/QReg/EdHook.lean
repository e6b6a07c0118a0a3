import SciTECO.Expressions.Commas
import SciTECO.Expressions.Retained

/-!
# ED hooks

`teco_ed_hook()` calls the macro in the register `ED` in the middle of a
command.  It opens a brace, pushes the type of the hook, and afterwards it
discards the arguments and closes the brace, so that the expression stack of the
command is left alone.
-/

namespace SciTECO

open Undoable Expressions

/-- `teco_ed_hook_t`. -/
inductive EdHook where
  | add
  | edit
  | close
  | quit
deriving DecidableEq, Repr

def EdHook.value : EdHook -> TecoInt
  | add => 0
  | edit => 1
  | close => 2
  | quit => 3

/-- `teco_qreg_execute()` of the register `ED`, as far as the expression stack
is concerned.  The value is the name of the local register which is still
edited at the end of the macro, if there is one. -/
abbrev EdMacro : Type := Exec Expressions (Option String)

def editingLocalQReg (name : String) : TecoError :=
  { code := ErrorCode.editingLocalQReg
    message := "Editing local Q-Register \"" ++ name ++
      "\" at end of macro call" }

/-- `teco_ed_hook()`.  `ed` is the flag `TECO_ED_HOOKS`, and `qreg` is `none`
if there is no register `ED`. -/
def edHook (ed : Bool) (qreg : Option EdMacro) (type : EdHook) :
    Exec Expressions Unit :=
  if ed then
    match qreg with
    | none =>
        throw (TecoError.failed "Undefined ED-hook register (\"ED\")")
    | some execute => do
        braceOpen
        pushInt type.value
        let edited <- execute
        match edited with
        | some name => throw (editingLocalQReg name)
        | none => do
            discardArgs
            braceClose
  else
    pure ()

/-- A macro which closes no brace that it has not opened: on success all that
it has done are such calls. -/
structure HookMacro where
  run : EdMacro
  stays : forall s edited t tokens, run s = .ok edited t tokens ->
    exists calls, RunsAbove s.braceLevel calls s t

namespace EdHook

variable {s t u d f : Expressions}

/-!
## The beginning of the macro
-/

/-- The state in which the macro starts. -/
def entered (type : EdHook) (s : Expressions) : Expressions :=
  pushed
    { s with
      operators := Operator.brace :: dropNew s.operators
      braceLevel := s.braceLevel + 1 }
    type.value

/-- The plain type of the hook is the only argument, and no sign is pending. -/
structure StartsPlain (type : EdHook) (s : Expressions) : Prop where
  args : s.args = 1
  value : s.peekNum 0 = some type.value
  numSign : ¬ s.numSign < 0

/-- The stacks above the brace of the hook when the macro starts. -/
def fresh (type : EdHook) (s : Expressions) : Expressions :=
  pushed
    { numbers := []
      operators := [Operator.brace]
      numSign := s.numSign
      braceLevel := s.braceLevel + 1 }
    type.value

/-- The stacks below the brace of the hook. -/
def caller (s : Expressions) : Expressions :=
  { s with operators := dropNew s.operators }

theorem entered_eq (type : EdHook) (s : Expressions) :
    entered type s = onTop (caller s) (fresh type s) := by
  simp [entered, fresh, caller, onTop, pushed, dropNew_cons]

theorem fresh_operators (type : EdHook) (s : Expressions) :
    (fresh type s).operators = [Operator.number, Operator.brace] := rfl

theorem fresh_above (type : EdHook) (s : Expressions) :
    Above (s.braceLevel + 1) (fresh type s) := by
  constructor
  · exact Nat.le_refl _
  · constructor
    · exact ⟨[Operator.number], rfl⟩
    · rfl
    · show s.braceLevel + 1 - (s.braceLevel + 1) < 1
      rw [Nat.sub_self]
      exact Nat.one_pos
    · rfl

theorem fresh_separated (type : EdHook) (s : Expressions) :
    Separated (fresh type s) := by
  unfold Separated
  rw [fresh_operators]
  exact separated_cons (separated_cons List.isChain_nil (by simp)) (by simp)

/-- The sign of the caller is applied to the type, which shows unless the type
is 0. -/
theorem entered_startsPlain (type : EdHook) (s : Expressions) :
    StartsPlain type (entered type s) <->
      ¬ s.numSign < 0 ∨ type = EdHook.add := by
  constructor
  · intro h
    by_cases hsign : s.numSign < 0
    · right
      have hvalue := h.value
      cases type with
      | add => rfl
      | edit => simp [entered, pushed, peekNum, hsign, value] at hvalue
      | close => simp [entered, pushed, peekNum, hsign, value] at hvalue
      | quit => simp [entered, pushed, peekNum, hsign, value] at hvalue
    · exact Or.inl hsign
  · intro h
    constructor
    · simp [entered, pushed, args, dropNew_cons]
    · rcases h with hsign | rfl
      · simp [entered, pushed, peekNum, hsign]
      · simp [entered, pushed, peekNum, value]
    · by_cases hsign : s.numSign < 0
      · simp [entered, pushed, hsign]
      · simp [entered, pushed, hsign]

/-!
## Discarding what the macro has left
-/

theorem args_ne_zero (s : Expressions) :
    s.args ≠ 0 <-> s.operators.head? = some Operator.number := by
  rcases args_split s with ⟨rest, hops, hrest⟩
  cases hargs : s.args with
  | zero =>
      rw [hargs] at hops
      rw [hops]
      simpa using hrest
  | succ k =>
      rw [hargs, List.replicate_succ, List.cons_append] at hops
      rw [hops]
      simp

/-- A pending sign is consumed together with the first argument. -/
def consumedSign (s : Expressions) : Int :=
  if s.numSign < 0 ∧ s.operators.head? = some Operator.number then 1
  else s.numSign

/-- Resolving an operator pushes its result and consumes a pending sign. -/
def SignOf (s t : Expressions) : Prop :=
  t.numSign = s.numSign ∨ (s.numSign < 0 ∧ t.numSign = 1)

theorem SignOf.calcTop (h : SignOf s t) :
    wp calcTop (fun _ u => SignOf s u) (fun _ _ => True) (fun _ => True) t := by
  rcases top_cases t.operators with
    hops | hops | ⟨op, rest, hops, hleft⟩ | ⟨op, rest, hops, hop⟩ |
    ⟨bop, rest, hops⟩
  · rw [wp_calcTop_noRight
      (by simpa [peekOp, List.head?_eq_getElem?] using hops)]
    trivial
  · rw [wp_calcTop_single hops]
    trivial
  · rw [wp_calcTop_noLeft hops hleft]
    trivial
  · rw [wp_calcTop_notReached hops hop]
    trivial
  · rw [wp_calcTop_real hops]
    split
    · unfold SignOf pushed dropCalc
      dsimp only
      rcases h with h | ⟨hneg, hone⟩
      · rw [h]
        by_cases hsign : s.numSign < 0
        · simp [hsign]
        · simp [hsign]
      · simp [hneg, hone]
    · trivial
    · trivial

theorem eval_signOf (s : Expressions) :
    wp (eval false) (fun _ t => SignOf s t) (fun _ _ => True)
      (fun _ => True) s :=
  wp_eval_of_invariant (SignOf s) (Or.inl rfl) (fun _ ht _ => ht.calcTop)
    (fun _ ht _ => ht)

theorem discardArgs_numSign (s : Expressions) :
    wp discardArgs (fun _ d => d.numSign = consumedSign s) (fun _ _ => True)
      (fun _ => True) s := by
  apply wp_discardArgs
  apply wp_call_and (eval_signOf s) (eval_evaluates s)
  intro _ t hsign hevaluates
  rcases hevaluates with ⟨heval, hres⟩
  constructor
  · exact hres
  · intro rest hops hrest
    have hargs := args_ne_zero t
    simp only [discarded, hargs, consumedSign]
    rcases heval.top with rfl | ⟨hnumber, hnumber'⟩
    · simp only [and_comm]
    · simp only [hnumber, hnumber', true_and, and_true]
      rcases hsign with hsame | ⟨hneg, hone⟩
      · rw [hsame]
      · simp [hneg, hone]

/-- A comma is on the top afterwards only if nothing has been discarded. -/
theorem discardArgs_comma (h : Separated s) :
    wp discardArgs
      (fun _ d => d.operators.head? = some Operator.new -> d = s)
      (fun _ _ => True) (fun _ => True) s := by
  apply wp_discardArgs
  apply wp_call_and h.eval (eval_evaluates s)
  intro _ t ht hevaluates
  rcases hevaluates with ⟨heval, hres⟩
  constructor
  · exact hres
  · intro rest hops hrest hnew
    have hhead : rest.head? = some Operator.new := hnew
    cases hargs : t.args with
    | zero =>
        rw [hargs, List.replicate_zero, List.nil_append] at hops
        rcases heval.top with rfl | ⟨_, hnumber⟩
        · simp [discarded, <- hops]
        · rw [hops, hhead] at hnumber
          cases hnumber
    | succ k =>
        exfalso
        rw [hargs, List.replicate_succ', List.append_assoc] at hops
        have hchain := separated_drop _ ht.1 hops
        rw [List.singleton_append, List.isChain_cons] at hchain
        exact absurd rfl (hchain.1 Operator.new hhead rfl).1

/-- What is left above the brace of the hook when the arguments have been
discarded. -/
structure Leftover (u d : Expressions) : Prop where
  discards : Discards u d
  grounded : exists ops, d.operators = ops ++ [Operator.brace]
  numbers : d.operators.count Operator.number = d.numbers.length
  numSign : d.numSign = consumedSign u
  comma : d.operators.head? = some Operator.new -> d = u

theorem discardArgs_leftover {closable level : Nat}
    (h : Grounded closable level u) (hseparated : Separated u)
    {tokens : List (Expressions -> Expressions)}
    (hrun : discardArgs u = .ok () d tokens) : Leftover u d := by
  have hretains : Retains initial (Grounded closable level) discardArgs
      discardArgs u := retains_discardArgs h
  have hgrounded := (hretains.ok hrun).1
  have hsign := wp_ok (discardArgs_numSign u) hrun
  have hdiscards := wp_ok (discardArgs_discards u) hrun
  have hcomma := discardArgs_comma hseparated
  unfold wp at hcomma
  rw [hrun] at hcomma
  exact
    { discards := hdiscards
      grounded := hgrounded.bottom
      numbers := hgrounded.numbers
      numSign := hsign
      comma := hcomma }

/-!
## Closing the brace
-/

theorem belowBrace_onTop {ops : List Operator} (lower : List Operator)
    (h : exists upper, ops = upper ++ [Operator.brace]) :
    belowBrace (ops ++ lower) = belowBrace ops ++ lower := by
  induction ops with
  | nil =>
      rcases h with ⟨upper, hupper⟩
      cases upper <;> cases hupper
  | cons op ops ih =>
      by_cases hop : op = Operator.brace
      · subst hop
        rfl
      · rw [List.cons_append, belowBrace_cons hop, belowBrace_cons hop]
        apply ih
        rcases h with ⟨upper, hupper⟩
        cases upper with
        | nil =>
            cases hupper
            exact absurd rfl hop
        | cons _ upper =>
            cases hupper
            exact ⟨upper, rfl⟩

/-- The separators on the top of the stack, which opening a brace removes. -/
def commas (s : Expressions) : List Operator :=
  s.operators.takeWhile (fun op => op == Operator.new)

theorem commas_append (s : Expressions) :
    commas s ++ dropNew s.operators = s.operators :=
  List.takeWhile_append_dropWhile

theorem mem_commas {s : Expressions} {op : Operator} (h : op ∈ commas s) :
    op = Operator.new := by
  simpa using List.mem_takeWhile_imp h

theorem commas_head (s : Expressions) :
    s.operators.head? = some Operator.new <-> commas s ≠ [] := by
  unfold commas
  cases s.operators with
  | nil => simp
  | cons op ops =>
      by_cases hop : op = Operator.new
      · simp [hop]
      · simp [hop]

theorem braceClose_eq (hres : Resolved s.operators)
    {tokens : List (Expressions -> Expressions)}
    (hrun : braceClose s = .ok () f tokens) :
    f = braceRemoved { s with braceLevel := s.braceLevel - 1 } := by
  have hwp : wp braceClose
      (fun _ t => t = braceRemoved { s with braceLevel := s.braceLevel - 1 })
      (fun _ _ => True) (fun _ => True) s := by
    simp only [braceClose, wp_bind, wp_get, wp_ite, wp_throw,
      wp_undoBraceLevel, wp_setBraceLevel]
    split
    · trivial
    · exact (wp_eval_true_resolved
        (s := { s with braceLevel := s.braceLevel - 1 }) hres).mpr rfl
  unfold wp at hwp
  rw [hrun] at hwp
  exact hwp

/-- Closing the brace below some commas leaves the commas. -/
theorem braceRemoved_commas (base : Expressions) {upper : List Operator}
    (hupper : forall op, op ∈ upper -> op = Operator.new)
    (hops : d.operators = upper ++ [Operator.brace]) (level : Nat) :
    braceRemoved { onTop base d with braceLevel := level } =
      { numbers := d.numbers ++ base.numbers
        operators := upper ++ base.operators
        numSign := d.numSign
        braceLevel := level } := by
  have hall : ({ onTop base d with braceLevel := level } :
      Expressions).operators = upper ++ Operator.brace :: base.operators := by
    show d.operators ++ base.operators = _
    rw [hops, List.append_assoc]
    rfl
  rw [braceRemoved_eq hall]
  · rfl
  · intro op hop
    rw [hupper op hop]
    rfl

/-- Commas are on the stack of the caller only if they are all that has been
above the brace. -/
theorem commas_of_braceRemoved {base : Expressions} {upper : List Operator}
    {level : Nat} (hd : Leftover u d)
    (hupper : forall op, op ∈ upper -> op = Operator.new)
    (hops : (braceRemoved { onTop base d with braceLevel := level }).operators =
      upper ++ base.operators) :
    d.operators = upper ++ [Operator.brace] := by
  rcases hd.grounded with ⟨ops, hbottom⟩
  have hresolved := hd.discards.resolved
  generalize hall : d.operators = all at hresolved
  cases hresolved with
  | empty hvals =>
      have hbrace := hvals Operator.brace (by
        rw [<- hall, hbottom]
        simp)
      cases hbrace
  | @brace vals rest hvals =>
      have hfull : ({ onTop base d with braceLevel := level } :
          Expressions).operators =
            vals ++ Operator.brace :: (rest ++ base.operators) := by
        show d.operators ++ base.operators = _
        rw [hall, List.append_assoc]
        rfl
      rw [braceRemoved_eq hfull hvals] at hops
      have hsame : vals ++ rest = upper := by
        have hops' : vals ++ (rest ++ base.operators) =
            upper ++ base.operators := hops
        rw [<- List.append_assoc] at hops'
        exact List.append_cancel_right hops'
      cases rest using List.reverseRecOn with
      | nil =>
          rw [List.append_nil] at hsame
          rw [hsame]
      | append_singleton rest op =>
          have hlast : op = Operator.brace := by
            have hends : vals ++ Operator.brace :: (rest ++ [op]) =
                ops ++ [Operator.brace] := hall.symm.trans hbottom
            have hends' : (vals ++ Operator.brace :: rest) ++ [op] =
                ops ++ [Operator.brace] := by
              rw [<- hends, List.append_assoc]
              rfl
            exact (List.append_inj' hends' rfl).2 |> List.singleton_inj.mp
          have hnew := hupper op (by
            rw [<- hsame]
            simp)
          rw [hlast] at hnew
          cases hnew
  | @dangling op rest =>
      have hfull : ({ onTop base d with braceLevel := level } :
          Expressions).operators =
            Operator.real op :: (rest ++ base.operators) := by
        show d.operators ++ base.operators = _
        rw [hall]
        rfl
      rw [braceRemoved_dangling hfull, hfull] at hops
      have hsame : Operator.real op :: rest = upper := by
        have hops' : (Operator.real op :: rest) ++ base.operators =
            upper ++ base.operators := hops
        exact List.append_cancel_right hops'
      have hnew := hupper (Operator.real op) (by
        rw [<- hsame]
        exact List.mem_cons_self)
      cases hnew

/-!
## Transparent hooks
-/

/-- When the hook leaves the stack of the command alone.  `s` is the state in
front of it, and `t` is what the macro leaves. -/
structure Transparent (type : EdHook) (s t : Expressions) : Prop where
  /-- No sign is pending, or it cannot be seen in the type. -/
  type : ¬ s.numSign < 0 ∨ type = EdHook.add
  /-- The macro leaves no brace open. -/
  braceLevel : t.braceLevel = s.braceLevel + 1
  brace : belowBrace t.operators = Operator.brace :: dropNew s.operators
  /-- If there is a separator on the top, then the macro leaves just as
  many. -/
  separators : s.operators.head? = some Operator.new ->
    t.operators = commas s ++ Operator.brace :: dropNew s.operators
  /-- Otherwise it leaves no separator and no operator on the top. -/
  arguments : s.operators.head? ≠ some Operator.new ->
    t.operators.head? ≠ some Operator.new ∧
      forall op, t.operators.head? ≠ some (Operator.real op)
  /-- The sign is the same, or it is consumed together with an argument. -/
  numSign : consumedSign t = s.numSign

/-- A run of a hook: the stacks `u` which the macro leaves above the brace, and
`d` after the arguments have been discarded. -/
structure Runs (s t f u d : Expressions) : Prop where
  left : t = onTop (caller s) u
  grounded : exists ops, u.operators = ops ++ [Operator.brace]
  braceLevel : s.braceLevel + 1 <= u.braceLevel
  leftover : Leftover u d
  closed : f = braceRemoved
    { onTop (caller s) d with braceLevel := d.braceLevel - 1 }

theorem Runs.head (h : Runs s t f u d) :
    t.operators.head? = u.operators.head? := by
  rcases h.grounded with ⟨ops, hops⟩
  rw [h.left, onTop_operators, hops]
  cases ops <;> rfl

theorem Runs.sign (h : Runs s t f u d) :
    consumedSign t = consumedSign u := by
  have hsign : t.numSign = u.numSign := by
    rw [h.left]
    rfl
  unfold consumedSign
  rw [h.head, hsign]

theorem Runs.below (h : Runs s t f u d) :
    belowBrace t.operators = belowBrace u.operators ++
      dropNew s.operators := by
  rw [h.left, onTop_operators, belowBrace_onTop _ h.grounded]
  rfl

theorem Runs.of_transparent (h : Runs s t f u d)
    (hleft : d.operators = commas s ++ [Operator.brace])
    (hlevel : t.braceLevel = s.braceLevel + 1)
    (hsign : consumedSign t = s.numSign) : f = s := by
  have hnumbers : d.numbers = [] := by
    have hcount := h.leftover.numbers
    have hzero : (commas s ++ [Operator.brace]).count Operator.number = 0 := by
      apply List.count_eq_zero.mpr
      intro hmem
      rcases List.mem_append.mp hmem with hmem | hmem
      · cases mem_commas hmem
      · cases List.mem_singleton.mp hmem
    rw [hleft, hzero] at hcount
    exact List.eq_nil_of_length_eq_zero hcount.symm
  have hbrace : d.braceLevel - 1 = s.braceLevel := by
    have hu : t.braceLevel = u.braceLevel := by
      rw [h.left]
      rfl
    rw [h.leftover.discards.braceLevel, <- hu, hlevel, Nat.add_sub_cancel]
  have hnumSign : d.numSign = s.numSign := by
    rw [h.leftover.numSign, <- h.sign, hsign]
  rw [h.closed, braceRemoved_commas _ (fun _ => mem_commas) hleft, hnumbers,
    hbrace, hnumSign]
  show ({ numbers := s.numbers
          operators := commas s ++ dropNew s.operators
          numSign := s.numSign
          braceLevel := s.braceLevel } : Expressions) = s
  rw [commas_append]

/-- Nothing but the commas of the caller is left above the brace. -/
theorem Runs.leftover_commas (h : Runs s t f u d) {type : EdHook}
    (htransparent : Transparent type s t) :
    d.operators = commas s ++ [Operator.brace] := by
  by_cases hnew : s.operators.head? = some Operator.new
  · have hops := htransparent.separators hnew
    have hu : u.operators = commas s ++ [Operator.brace] := by
      have hops' : u.operators ++ dropNew s.operators =
          (commas s ++ [Operator.brace]) ++ dropNew s.operators := by
        rw [List.append_assoc]
        rw [h.left] at hops
        exact hops
      exact List.append_cancel_right hops'
    have hhead : u.operators.head? = some Operator.new := by
      have hne := (commas_head s).mp hnew
      rw [hu]
      cases hcommas : commas s with
      | nil => exact absurd hcommas hne
      | cons op ops =>
          have hop : op = Operator.new := mem_commas (s := s) (by
            rw [hcommas]
            exact List.mem_cons_self)
          rw [hop]
          rfl
    rw [h.leftover.comma (h.leftover.discards.comma hhead), hu]
  · have hempty : commas s = [] := by
      by_contra hne
      exact hnew ((commas_head s).mpr hne)
    have harguments := htransparent.arguments hnew
    rw [h.head] at harguments
    have hbelow : belowBrace u.operators = [Operator.brace] := by
      have hbrace := htransparent.brace
      rw [h.below] at hbrace
      have hbrace' : belowBrace u.operators ++ dropNew s.operators =
          [Operator.brace] ++ dropNew s.operators := hbrace
      exact List.append_cancel_right hbrace'
    rw [hempty, List.nil_append]
    rcases resolved_noArgs_cases h.leftover.discards.resolved
      h.leftover.discards.noArgs with
      hnil | hcomma | ⟨rest, hbrace⟩ | ⟨op, rest, hreal⟩
    · rcases h.leftover.grounded with ⟨ops, hops⟩
      rw [hnil] at hops
      cases ops <;> cases hops
    · have hsame := h.leftover.comma hcomma
      rw [hsame] at hcomma
      exact absurd hcomma harguments.1
    · rw [<- hbelow, <- h.leftover.discards.below, hbrace]
      rfl
    · have hhead : d.operators.head? = some (Operator.real op) := by
        rw [hreal]
        rfl
      have hsame := h.leftover.discards.dangling op (Or.inr hhead)
      rw [hsame] at hhead
      exact absurd hhead (harguments.2 op)

theorem Runs.transparent (h : Runs s t f u d) (hf : f = s) {type : EdHook}
    (htype : ¬ s.numSign < 0 ∨ type = EdHook.add) : Transparent type s t := by
  have hclosed := h.closed
  rw [hf] at hclosed
  have hleft : d.operators = commas s ++ [Operator.brace] := by
    apply commas_of_braceRemoved h.leftover (fun _ => mem_commas)
    · rw [<- hclosed]
      exact (commas_append s).symm
  have hfinal := braceRemoved_commas (caller s)
    (fun _ => mem_commas) hleft (d.braceLevel - 1)
  rw [<- hclosed] at hfinal
  have hu : t.braceLevel = u.braceLevel := by
    rw [h.left]
    rfl
  constructor
  · exact htype
  · have hlevel : s.braceLevel = d.braceLevel - 1 :=
      congrArg (fun e : Expressions => e.braceLevel) hfinal
    have hle := h.braceLevel
    rw [h.leftover.discards.braceLevel] at hlevel
    omega
  · rw [h.below, <- h.leftover.discards.below, hleft,
      belowBrace_append]
    · rfl
    · intro op hop
      rw [mem_commas hop]
      rfl
  · intro hnew
    have hne := (commas_head s).mp hnew
    have hhead : d.operators.head? = some Operator.new := by
      rw [hleft]
      cases hcommas : commas s with
      | nil => exact absurd hcommas hne
      | cons op ops =>
          have hop : op = Operator.new := mem_commas (s := s) (by
            rw [hcommas]
            exact List.mem_cons_self)
          rw [hop]
          rfl
    have hsame := h.leftover.comma hhead
    rw [h.left, onTop_operators, <- hsame, hleft, List.append_assoc]
    rfl
  · intro hnew
    have hempty : commas s = [] := by
      by_contra hne
      exact hnew ((commas_head s).mpr hne)
    rw [hempty, List.nil_append] at hleft
    rw [h.head]
    constructor
    · intro hcomma
      have hhead := h.leftover.discards.comma hcomma
      rw [hleft] at hhead
      cases hhead
    · intro op hreal
      have hsame := h.leftover.discards.dangling op (Or.inl hreal)
      rw [<- hsame, hleft] at hreal
      cases hreal
  · have hfinalSign := congrArg (fun e : Expressions => e.numSign) hfinal
    have hsign : s.numSign = d.numSign := hfinalSign
    rw [h.sign, <- h.leftover.numSign, hsign]

/-!
## The whole hook
-/

theorem runsAbove_separated {floor : Nat} {calls : List Call}
    (hs : Separated s) (hrun : RunsAbove floor calls s t) : Separated t := by
  induction calls generalizing s with
  | nil =>
      cases hrun
      exact hs
  | cons c calls ih =>
      rcases hrun with ⟨_, u, tokens, hcall, hrest⟩
      have hu := wp_ok (c.run_separated hs) hcall
      exact ih hu hrest

theorem onTop_initial (s : Expressions) : onTop initial s = s := by
  simp [onTop, initial]

theorem wp_state {m : Exec Expressions Unit} {tokens}
    (h : wp m (fun _ v => v = t) (fun _ _ => True) (fun _ => True) s)
    (hrun : m s = .ok () f tokens) : f = t := by
  unfold wp at h
  rw [hrun] at h
  exact h

/-- The steps of a hook which returns successfully. -/
theorem edHook_steps {qreg : EdMacro} {type : EdHook}
    {tokens : List (Expressions -> Expressions)}
    (h : edHook true (some qreg) type s = .ok () f tokens) :
    exists t d macroLog discardLog closeLog,
      qreg (entered type s) = .ok none t macroLog ∧
        discardArgs t = .ok () d discardLog ∧
        braceClose d = .ok () f closeLog := by
  rcases bind_ok h with ⟨_, opened, _, _, hopen, h, _⟩
  rcases bind_ok h with ⟨_, v, _, _, hpush, h, _⟩
  rcases bind_ok h with ⟨edited, t, macroLog, _, hbody, h, _⟩
  have hopened : opened =
      { s with
        operators := Operator.brace :: dropNew s.operators
        braceLevel := s.braceLevel + 1 } := by
    apply wp_state _ hopen
    simp [braceOpen]
  have hv : v = opened.pushed type.value := by
    apply wp_state _ hpush
    rw [wp_pushInt]
  rw [hv, hopened] at hbody
  cases edited with
  | some name => cases h
  | none =>
      rcases bind_ok h with ⟨_, d, discardLog, closeLog, hdiscard, hclose, _⟩
      exact ⟨t, d, macroLog, discardLog, closeLog, hbody, hdiscard, hclose⟩

theorem edHook_runs (qreg : HookMacro) {type : EdHook}
    {tokens tokens' : List (Expressions -> Expressions)}
    (hbody : qreg.run (entered type s) = .ok none t tokens')
    (hhook : edHook true (some qreg.run) type s = .ok () f tokens) :
    exists u d, Runs s t f u d := by
  rcases edHook_steps hhook with
    ⟨t', d', _, _, _, hbody', hdiscard, hclose⟩
  rw [hbody] at hbody'
  cases hbody'
  rcases qreg.stays _ _ _ _ hbody with ⟨calls, hcalls⟩
  rw [entered_eq] at hcalls
  rcases runsAbove_onTop calls (fresh_above type s) hcalls with
    ⟨u, habove, ht, hlocal⟩
  subst ht
  have hseparated : Separated u := by
    have hown := hlocal initial
    rw [onTop_initial, onTop_initial] at hown
    exact runsAbove_separated (fresh_separated type s) hown
  have hretains : Retains (caller s)
      (Grounded (u.braceLevel - (s.braceLevel + 1)) u.braceLevel)
      discardArgs discardArgs u := retains_discardArgs habove.grounded
  rcases hretains.ok_inv hdiscard with ⟨d, _, hd, hd'⟩
  subst hd'
  have hleftover := discardArgs_leftover habove.grounded hseparated hd
  exists u, d
  exact
    { left := rfl
      grounded := habove.grounded.bottom
      braceLevel := habove.le_braceLevel
      leftover := hleftover
      closed := braceClose_eq
        (resolved_append hleftover.discards.resolved hleftover.grounded)
        hclose }

/-- A hook leaves the expression stack alone and shows its macro the plain
type if and only if it is transparent at what the macro leaves. -/
theorem edHook_transparent (qreg : HookMacro) (type : EdHook)
    {s t f : Expressions} {tokens tokens' : List (Expressions -> Expressions)}
    (hbody : qreg.run (entered type s) = .ok none t tokens')
    (hhook : edHook true (some qreg.run) type s = .ok () f tokens) :
    (f = s ∧ StartsPlain type (entered type s)) <-> Transparent type s t := by
  rcases edHook_runs qreg hbody hhook with ⟨u, d, hruns⟩
  rw [entered_startsPlain]
  constructor
  · rintro ⟨hf, htype⟩
    exact hruns.transparent hf htype
  · intro h
    exact ⟨hruns.of_transparent (hruns.leftover_commas h) h.braceLevel
      h.numSign, h.type⟩

/-- The empty macro, which leaves the type of the hook on the stack. -/
def emptyMacro : HookMacro :=
  { run := pure none
    stays := by
      intro s edited t tokens hrun
      cases hrun
      exact ⟨[], rfl⟩ }

/-- A number has been typed. -/
def typedNumber : Expressions :=
  { numbers := [1], operators := [Operator.number], numSign := 1
    braceLevel := 0 }

theorem edHook_transparent_number :
    (typedNumber = typedNumber ∧
        StartsPlain EdHook.edit (entered EdHook.edit typedNumber)) <->
      Transparent EdHook.edit typedNumber (entered EdHook.edit typedNumber) :=
  edHook_transparent emptyMacro EdHook.edit rfl rfl

/-- A number and a comma have been typed. -/
def typedComma : Expressions :=
  { typedNumber with operators := [Operator.new, Operator.number] }

/-- The hook removes the comma. -/
theorem edHook_comma :
    ¬ (forall (qreg : HookMacro) (type : EdHook) (s t f : Expressions)
        (tokens tokens' : List (Expressions -> Expressions)),
      qreg.run (entered type s) = .ok none t tokens' ->
      edHook true (some qreg.run) type s = .ok () f tokens ->
      f = s ∧ StartsPlain type (entered type s)) := by
  intro h
  have hsame := h emptyMacro EdHook.edit typedComma _ typedNumber _ _ rfl rfl
  have hops : typedNumber.operators = typedComma.operators := by
    rw [hsame.1]
  cases hops

end EdHook
end SciTECO
