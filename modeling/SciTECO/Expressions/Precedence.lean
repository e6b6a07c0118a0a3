import Mathlib.Data.List.Induction
import SciTECO.Lib.Infix
import SciTECO.Expressions.Commands

/-!
# Infix evaluation

The operator stack evaluates an expression while it is typed.  The reference is
the tree of the expression: its operators are applied from the left to the
right, operands first.

The invariant of the proof is about what may follow.  Typing the tree `t` and
then anything that resolves the operators of `t` is the same as pushing the
value of `t` first.
-/

namespace SciTECO
namespace Expressions

open Undoable
open Infix

/-- What the digits stand for in a radix. -/
def digitsValue (radix : Nat) (digits : List (Fin 10)) : Nat :=
  digits.foldl (fun n (digit : Fin 10) => n * radix + digit.val) 0

/-- The digits can be added one after another: what has been typed before a
digit is no negative `teco_int_t`. -/
def DigitsFit (radix : Nat) (digits : List (Fin 10)) : Prop :=
  forall k, k < digits.length -> digitsValue radix (digits.take k) < 2 ^ 63

/-- An unsigned integer literal. -/
structure Literal (radix : Nat) where
  digits : List (Fin 10)
  nonempty : digits ≠ []
  fits : DigitsFit radix digits

namespace Literal

/-- Larger literals than those of a `teco_int_t` wrap around. -/
def value {radix : Nat} (literal : Literal radix) : TecoInt :=
  BitVec.ofNat 64 (digitsValue radix literal.digits)

end Literal

/-- The precedence of the operators as a table. -/
def prec : BinaryOp -> Nat
  | .pow => 6
  | .mod => 5
  | .div => 5
  | .mul => 5
  | .sub => 4
  | .add => 4
  | .and => 3
  | .xor => 2
  | .or => 1

theorem prec_eq_precedence (op : BinaryOp) :
    prec op = (Operator.real op).precedence := by
  cases op <;> rfl

/-- The reference evaluation. -/
def treeValue {radix : Nat} :
    ExprTree BinaryOp (Literal radix) ->
      Except (Stop TecoError Fault) TecoInt
  | .lit literal => .ok literal.value
  | .group inner => treeValue inner
  | .node op left right => do
      let vleft <- treeValue left
      let vright <- treeValue right
      applyOp op vleft vright

/-!
## Typing
-/

def typeDigits (radix : Nat) : List (Fin 10) -> Exec Expressions Unit
  | [] => pure ()
  | digit :: digits => do
      addDigit (BitVec.ofNat 64 radix) (48 + digit)
      typeDigits radix digits

/-- The command of an operator. -/
def typeOp : BinaryOp -> Exec Expressions Unit
  | .pow => controlPow
  | .mod => controlMod
  | .div => startDiv
  | .mul => startMul
  | .sub => startMinus
  | .add => startPlus
  | .and => startAnd
  | .xor => controlXor
  | .or => startOr

mutual

def typeOperand {radix : Nat} :
    Operand BinaryOp (Literal radix) -> Exec Expressions Unit
  | .lit literal => typeDigits radix literal.digits
  | .group chain => do
      startBraceOpen
      typeChain chain
      startBraceClose

/-- The commands of an expression, as they are typed from left to right. -/
def typeChain {radix : Nat} :
    Chain BinaryOp (Literal radix) -> Exec Expressions Unit
  | .single operand => typeOperand operand
  | .snoc chain op operand => do
      typeChain chain
      typeOp op
      typeOperand operand

end

/-- The same commands along the tree. -/
def typeTree {radix : Nat} :
    ExprTree BinaryOp (Literal radix) -> Exec Expressions Unit
  | .lit literal => typeDigits radix literal.digits
  | .group inner => do
      startBraceOpen
      typeTree inner
      startBraceClose
  | .node op left right => do
      typeTree left
      typeOp op
      typeTree right

theorem typeTree_attach {radix : Nat} (op : BinaryOp)
    (operand t : ExprTree BinaryOp (Literal radix)) :
    typeTree (t.attach prec op operand) = (do
      typeTree t
      typeOp op
      typeTree operand) := by
  induction t with
  | lit literal => rfl
  | group inner _ => rfl
  | node o left right _ ihright =>
      unfold ExprTree.attach
      split
      · simp only [typeTree, ihright, bind_assoc]
      · rfl

mutual

theorem typeTree_operand {radix : Nat}
    (operand : Operand BinaryOp (Literal radix)) :
    typeTree (operand.parse prec) = typeOperand operand := by
  cases operand with
  | lit literal => rfl
  | group chain =>
      simp only [Operand.parse, typeTree, typeOperand]
      rw [typeTree_chain chain]

theorem typeTree_chain {radix : Nat}
    (chain : Chain BinaryOp (Literal radix)) :
    typeTree (chain.parse prec) = typeChain chain := by
  cases chain with
  | single operand => exact typeTree_operand operand
  | snoc chain op operand =>
      simp only [Chain.parse, typeChain]
      rw [typeTree_attach, typeTree_chain chain, typeTree_operand operand]

end

/-!
## Literals
-/

/-- A number can be typed: no argument is on the top, and no sign waits for the
number. -/
structure Ready (s : Expressions) : Prop where
  noArgument : s.operators.head? ≠ some Operator.number
  noSign : s.numSign = 1

theorem dropNew_dropNew (ops : List Operator) :
    dropNew (dropNew ops) = dropNew ops := by
  induction ops with
  | nil => rfl
  | cons op ops ih =>
      by_cases hop : op = Operator.new
      · subst hop
        exact ih
      · rw [dropNew_cons ops hop, dropNew_cons ops hop]

/-- A number takes the place of everything that has the same stacks below
it. -/
theorem pushed_eq {s t : Expressions} (n : TecoInt)
    (hs : s.numSign = 1) (ht : t.numSign = 1)
    (hnumbers : t.numbers = s.numbers)
    (hoperators : t.operators = dropNew s.operators)
    (hlevel : t.braceLevel = s.braceLevel) :
    t.pushed n = s.pushed n := by
  simp [pushed, hs, ht, hnumbers, hoperators, hlevel, dropNew_dropNew]

theorem digitsValue_snoc (radix : Nat) (digits : List (Fin 10))
    (digit : Fin 10) :
    digitsValue radix (digits ++ [digit]) =
      digitsValue radix digits * radix + digit.val := by
  simp [digitsValue, List.foldl_append]

theorem typeDigits_snoc (radix : Nat) (digits : List (Fin 10))
    (digit : Fin 10) :
    typeDigits radix (digits ++ [digit]) = (do
      typeDigits radix digits
      addDigit (BitVec.ofNat 64 radix) (48 + digit)) := by
  induction digits with
  | nil => simp [typeDigits]
  | cons d digits ih => simp [typeDigits, ih]

theorem pushed_numbers {s : Expressions} (h : Ready s) (n : TecoInt) :
    (s.pushed n).numbers = n :: s.numbers := by
  simp [pushed, h.noSign]

theorem pushed_noSign {s : Expressions} (h : Ready s) (n : TecoInt) :
    (s.pushed n).numSign = 1 := by
  simp [pushed, h.noSign]

theorem digit_ofInt (digit : Fin 10) :
    BitVec.ofInt 64 (((48 + digit.val : Nat) : Int) - 48) =
      BitVec.ofNat 64 digit := by
  have hsub : (((48 + digit.val : Nat) : Int) - 48) = (digit.val : Int) := by
    omega
  rw [hsub, BitVec.ofInt_natCast]

theorem addDigit_first {s : Expressions} (radix : TecoInt) (digit : Fin 10)
    (h : Ready s) :
    result (addDigit radix (48 + digit)) s =
      .ok ((), s.pushed (BitVec.ofNat 64 digit)) := by
  have hargs : s.args = 0 :=
    args_append (show s.operators = List.replicate 0 _ ++ s.operators from rfl)
      h.noArgument
  rw [result_eq_iff_wp]
  simp only [addDigit, wp_bind, wp_get, hargs, Nat.lt_irrefl, if_false,
    gt_iff_lt, wp_pure, wp_pushInt, digit_ofInt]
  simp

theorem addDigit_next {s : Expressions} (radix n : Nat) (digit : Fin 10)
    (h : Ready s) (hn : n < 2 ^ 63) :
    result (addDigit (BitVec.ofNat 64 radix) (48 + digit))
        (s.pushed (BitVec.ofNat 64 n)) =
      .ok ((), s.pushed (BitVec.ofNat 64 (n * radix + digit))) := by
  have hargs : 0 < (s.pushed (BitVec.ofNat 64 n)).args := by
    simp [args]
  have hsign : (BitVec.ofNat 64 n).slt 0 = false := by
    have htoNat : (BitVec.ofNat 64 n).toNat = n := by
      rw [BitVec.toNat_ofNat, Nat.mod_eq_of_lt (by omega)]
    rw [BitVec.slt_eq_decide, BitVec.toInt_eq_toNat_of_lt (by omega)]
    have hzero : (0 : TecoInt).toInt = 0 := by decide
    simp only [hzero, decide_eq_false_iff_not]
    omega
  rw [result_eq_iff_wp]
  simp only [addDigit, wp_bind, wp_get, hargs, if_true, wp_pushInt]
  rw [wp_popNum rfl]
  simp only [pushed_numbers h, pushed_noSign h, pushed_braceLevel,
    List.headD_cons, List.tail_cons, hsign, Bool.false_eq_true, if_false,
    digit_ofInt]
  have hpush : forall x : TecoInt,
      ({ numbers := s.numbers, operators := dropNew s.operators, numSign := 1,
         braceLevel := s.braceLevel } : Expressions).pushed x = s.pushed x :=
    fun x => pushed_eq x h.noSign rfl rfl rfl rfl
  simp [hpush, BitVec.ofNat_add, BitVec.ofNat_mul]

theorem typeDigits_pushed {radix : Nat} {digits : List (Fin 10)}
    {s : Expressions} (h : Ready s) (hne : digits ≠ [])
    (hfits : DigitsFit radix digits) :
    result (typeDigits radix digits) s =
      .ok ((), s.pushed (BitVec.ofNat 64 (digitsValue radix digits))) := by
  induction digits using List.reverseRecOn with
  | nil => exact absurd rfl hne
  | append_singleton digits digit ih =>
      rw [typeDigits_snoc]
      cases hdigits : digits with
      | nil =>
          rw [result_bind_of_ok (show result (typeDigits radix []) s =
            .ok ((), s) from rfl)]
          simpa [digitsValue] using
            addDigit_first (BitVec.ofNat 64 radix) digit h
      | cons d ds =>
          have hprefix : DigitsFit radix digits := by
            intro k hk
            have := hfits k (by simp; omega)
            rwa [List.take_append_of_le_length (Nat.le_of_lt hk)] at this
          have hvalue : digitsValue radix digits < 2 ^ 63 := by
            have := hfits digits.length (by simp)
            simpa using this
          rw [<- hdigits, result_bind_of_ok (ih (by simp [hdigits]) hprefix),
            digitsValue_snoc]
          exact addDigit_next radix _ digit h hvalue

/-!
## Operators that are resolved later
-/

/-- `k` starts by resolving the operator on the top of the innermost level, if
its precedence is at least `p`. -/
def Resolves (p level : Nat) (k : Exec Expressions Unit) : Prop :=
  forall (s : Expressions) (op : BinaryOp) (rest : List Operator),
    s.braceLevel = level ->
    s.operators =
      Operator.number :: Operator.real op :: Operator.number :: rest ->
    p <= prec op ->
    result k s =
      (applyOp op (s.numbers.tail.headD 0) (s.numbers.headD 0) >>= fun v =>
        result k ((s.dropCalc rest).pushed v))

theorem Resolves.bind {p level : Nat} {k : Exec Expressions Unit}
    (h : Resolves p level k) (k' : Exec Expressions Unit) :
    Resolves p level (do k; k') := by
  intro s op rest hlevel hops hp
  rw [result_bind, h s op rest hlevel hops hp]
  cases applyOp op (s.numbers.tail.headD 0) (s.numbers.headD 0) with
  | error stop => rfl
  | ok v =>
      change _ = result (do k; k') ((s.dropCalc rest).pushed v)
      rw [result_bind]
      rfl

/-- A computation that is described by the rule of `teco_expressions_calc()`
starts by resolving an operator. -/
theorem resolves_of_wp {s : Expressions} {k : Exec Expressions Unit}
    {op : BinaryOp} {rest : List Operator}
    (hops : s.operators =
      Operator.number :: Operator.real op :: Operator.number :: rest)
    (h : forall post fail bad, wp k post fail bad s <->
      wp calcTop (fun _ t => wp k post fail bad t) fail bad s) :
    result k s =
      (applyOp op (s.numbers.tail.headD 0) (s.numbers.headD 0) >>= fun v =>
        result k ((s.dropCalc rest).pushed v)) := by
  rw [result_eq_iff_wp, h, wp_calcTop_real hops]
  rcases applyOp op (s.numbers.tail.headD 0) (s.numbers.headD 0) with
    (e | c) | v
  · rfl
  · rfl
  · exact result_eq_iff_wp.mp rfl

theorem resolves_pushCalc (op : BinaryOp) (level : Nat) :
    Resolves (prec op) level (pushCalc op) := by
  intro s top rest _ hops hp
  refine resolves_of_wp hops ?_
  intro post fail bad
  refine wp_pushCalc_outranks ⟨[Operator.number], top, _, hops, ?_, ?_⟩
  · simp
  · rwa [<- prec_eq_precedence, <- prec_eq_precedence]

theorem resolves_eval (popBrace : Bool) (level : Nat) :
    Resolves 0 level (eval popBrace) := by
  intro s top rest _ hops _
  refine resolves_of_wp hops ?_
  intro post fail bad
  exact wp_eval_pending
    ⟨[Operator.number], top, _, hops, by simp, by simp⟩

theorem typeOp_of_args {s : Expressions} {ops : List Operator}
    (op : BinaryOp) (h : s.operators = Operator.number :: ops) :
    result (typeOp op) s = result (pushCalc op) s := by
  have hargs : s.args ≠ 0 := by simp [args, h]
  cases op with
  | sub =>
      simp only [typeOp, startMinus]
      rw [result_bind_of_ok (result_get s)]
      simp [hargs]
  | pow => rfl
  | mod => rfl
  | div => rfl
  | mul => rfl
  | add => rfl
  | and => rfl
  | xor => rfl
  | or => rfl

theorem resolves_typeOp (op : BinaryOp) (level : Nat) :
    Resolves (prec op) level (typeOp op) := by
  intro s top rest hlevel hops hp
  rw [typeOp_of_args op hops, resolves_pushCalc op level s top rest hlevel
    hops hp]
  congr 1
  funext v
  exact (typeOp_of_args op (pushed_operators _ v)).symm

theorem startBraceClose_eval {s : Expressions} {level : Nat}
    (h : s.braceLevel = level + 1) :
    result startBraceClose s =
      result (eval true) { s with braceLevel := level } := by
  rw [result_eq_iff_wp]
  simp only [startBraceClose, braceClose, wp_bind, wp_get, wp_ite,
    wp_undoBraceLevel, wp_setBraceLevel]
  simp only [h, Nat.add_one_ne_zero, if_false, Nat.add_sub_cancel]
  exact result_eq_iff_wp.mp rfl

theorem resolves_startBraceClose (level : Nat) :
    Resolves 0 (level + 1) startBraceClose := by
  intro s top rest hlevel hops hp
  rw [startBraceClose_eval hlevel,
    resolves_eval true level { s with braceLevel := level } top rest rfl
      hops hp]
  congr 1
  funext v
  rw [startBraceClose_eval (show ((s.dropCalc rest).pushed v).braceLevel =
    level + 1 from hlevel)]
  rfl

/-!
## The invariant
-/

theorem dropNew_append {vals : List Operator} (op : Operator)
    (rest : List Operator) (hop : op ≠ Operator.new)
    (hvals : forall v, v ∈ vals -> v.isArgument = true) :
    exists vals', dropNew (vals ++ op :: rest) = vals' ++ op :: rest ∧
      forall v, v ∈ vals' -> v.isArgument = true := by
  induction vals with
  | nil => exact ⟨[], dropNew_cons rest hop, by simp⟩
  | cons v vals ih =>
      by_cases hv : v = Operator.new
      · subst hv
        exact ih (fun w hw => hvals w (List.mem_cons_of_mem _ hw))
      · exact ⟨v :: vals, dropNew_cons _ hv, hvals⟩

theorem yields_pushed {p : Nat} {s : Expressions} (v : TecoInt)
    (h : Yields p s.operators) : Yields p (s.pushed v).operators := by
  rw [pushed_operators]
  rcases h with hall | ⟨vals, rest, hops, hvals⟩ |
    ⟨vals, top, rest, hops, hvals, hlt⟩
  · left
    intro op hop
    rcases List.mem_cons.mp hop with rfl | hop
    · rfl
    · exact hall op ((List.dropWhile_sublist _).mem hop)
  · obtain ⟨vals', hdrop, hvals'⟩ :=
      dropNew_append Operator.brace rest (by simp) hvals
    refine Or.inr (Or.inl ⟨Operator.number :: vals', rest, ?_, ?_⟩)
    · rw [hops, hdrop, List.cons_append]
    · simpa using hvals'
  · obtain ⟨vals', hdrop, hvals'⟩ :=
      dropNew_append (Operator.real top) rest (by simp) hvals
    refine Or.inr (Or.inr ⟨Operator.number :: vals', top, rest, ?_, ?_, hlt⟩)
    · rw [hops, hdrop, List.cons_append]
    · simpa using hvals'

theorem Yields.mono {p q : Nat} {ops : List Operator} (h : Yields p ops)
    (hpq : p <= q) : Yields q ops := by
  rcases h with hall | hbrace | ⟨vals, top, rest, hops, hvals, hlt⟩
  · exact Or.inl hall
  · exact Or.inr (Or.inl hbrace)
  · exact Or.inr (Or.inr
      ⟨vals, top, rest, hops, hvals, Nat.lt_of_lt_of_le hlt hpq⟩)

/-- The operators below a tree do not have to be resolved before its root. -/
def Opens {radix : Nat} (ops : List Operator) :
    ExprTree BinaryOp (Literal radix) -> Prop
  | .node op _ _ => Yields (prec op) ops
  | _ => True

theorem startBraceOpen_ready {s : Expressions} (h : Ready s) :
    result startBraceOpen s =
      .ok ((), { s with
        operators := Operator.brace :: dropNew s.operators
        braceLevel := s.braceLevel + 1 }) := by
  have hsign : ¬ s.numSign < 0 := by rw [h.noSign]; decide
  rw [result_eq_iff_wp]
  simp [startBraceOpen, hsign, braceOpen]

theorem startBraceClose_group {s : Expressions} (h : Ready s)
    (v : TecoInt) :
    result startBraceClose
        (({ s with
          operators := Operator.brace :: dropNew s.operators
          braceLevel := s.braceLevel + 1 } : Expressions).pushed v) =
      .ok ((), s.pushed v) := by
  rw [startBraceClose_eval rfl, result_eq_iff_wp]
  have hops : (Operator.number :: Operator.brace :: dropNew s.operators) =
      [Operator.number] ++ Operator.brace :: dropNew s.operators := rfl
  rw [wp_eval_true_brace hops (by simp)]
  simp [pushed, h.noSign]

/-- The state after an operator has been pushed. -/
def opPushed (s : Expressions) (op : BinaryOp) : Expressions :=
  { s with operators := Operator.real op :: s.operators }

theorem typeOp_pushed {s : Expressions} {op : BinaryOp} (v : TecoInt)
    (h : Yields (prec op) s.operators) :
    result (typeOp op) (s.pushed v) =
      .ok ((), (s.pushed v).opPushed op) := by
  rw [typeOp_of_args op (pushed_operators s v), result_eq_iff_wp]
  have hyields := yields_pushed v h
  rw [prec_eq_precedence] at hyields
  rw [wp_pushCalc_yields hyields]
  rfl

theorem ready_opPushed {s : Expressions} (op : BinaryOp) (h : Ready s)
    (v : TecoInt) : Ready ((s.pushed v).opPushed op) :=
  ⟨by simp [opPushed], pushed_noSign h v⟩

/-- Applying an operator puts its value in the place of its operands. -/
theorem pushed_opPushed {s : Expressions} {op : BinaryOp} (h : Ready s)
    (v w x : TecoInt) :
    ((((s.pushed v).opPushed op).pushed w).dropCalc
        (dropNew s.operators)).pushed x = s.pushed x := by
  have hready := ready_opPushed op h v
  refine pushed_eq x h.noSign (pushed_noSign hready w) ?_ rfl rfl
  simp only [dropCalc, pushed_numbers hready]
  simp [opPushed, pushed_numbers h]

theorem opens_brace {radix : Nat} (ops : List Operator)
    (t : ExprTree BinaryOp (Literal radix)) :
    Opens (Operator.brace :: ops) t := by
  cases t with
  | lit literal => trivial
  | group inner => trivial
  | node op left right => exact Or.inr (Or.inl ⟨[], ops, rfl, by simp⟩)

theorem opens_real {radix : Nat} {op : BinaryOp} (ops : List Operator)
    {t : ExprTree BinaryOp (Literal radix)} (h : t.Above prec (prec op)) :
    Opens (Operator.real op :: ops) t := by
  cases t with
  | lit literal => trivial
  | group inner => trivial
  | node o left right =>
      refine Or.inr (Or.inr ⟨[], op, ops, rfl, by simp, ?_⟩)
      rw [<- prec_eq_precedence]
      exact h

/-- Typing a tree and then resolving its operators is the same as pushing its
value.  The induction is on the tree; `k` is what follows. -/
theorem typeTree_resolves {radix p level : Nat}
    (t : ExprTree BinaryOp (Literal radix)) (ht : t.Respects prec)
    {k : Exec Expressions Unit} (hk : Resolves p level k)
    (hp : t.AtLeast prec p) {s : Expressions} (hs : Ready s)
    (hlevel : s.braceLevel = level) (hopens : Opens s.operators t) :
    result (do typeTree t; k) s =
      (treeValue t >>= fun v => result k (s.pushed v)) := by
  induction t generalizing p level k s with
  | lit literal =>
      exact result_bind_of_ok
        (typeDigits_pushed hs literal.nonempty literal.fits)
  | group inner ih =>
      have hready : Ready { s with
          operators := Operator.brace :: dropNew s.operators
          braceLevel := s.braceLevel + 1 } := ⟨by simp, hs.noSign⟩
      have hinner := ih ht
        ((resolves_startBraceClose level).bind k)
        (ExprTree.atLeast_zero prec inner) hready
        (congrArg (fun n => n + 1) hlevel)
        (opens_brace (dropNew s.operators) inner)
      simp only [typeTree, bind_assoc, treeValue]
      rw [result_bind_of_ok (startBraceOpen_ready hs), hinner]
      congr 1
      funext v
      exact result_bind_of_ok (startBraceClose_group hs v)
  | node op left right ihleft ihright =>
      obtain ⟨hleft, hright, hatleast, habove⟩ := ht
      have hleftOpens : Opens s.operators left := by
        cases left with
        | lit literal => trivial
        | group inner => trivial
        | node o l r => exact hopens.mono hatleast
      have hk' : Resolves (prec op) level (do
          typeOp op
          typeTree right
          k) := (resolves_typeOp op level).bind _
      simp only [typeTree, bind_assoc, treeValue]
      rw [ihleft hleft hk' hatleast hs hlevel hleftOpens]
      congr 1
      funext v
      have hready := ready_opPushed op hs v
      rw [result_bind_of_ok (typeOp_pushed v hopens),
        ihright hright hk (ExprTree.Above.atLeast prec habove hp)
          hready hlevel (opens_real (s.pushed v).operators habove)]
      congr 1
      funext w
      rw [hk (((s.pushed v).opPushed op).pushed w) op (dropNew s.operators)
        hlevel rfl hp]
      simp only [pushed_opPushed hs, pushed_numbers hready]
      simp [opPushed, pushed_numbers hs]

/-- A fresh argument position: no argument is on the top, no operator of the
innermost level is pending, and no sign waits for the next number. -/
structure Fresh (s : Expressions) : Prop extends Ready s where
  noOperator : Yields 0 s.operators

theorem resolved_of_yields_zero {ops : List Operator} (h : Yields 0 ops) :
    Resolved ops := by
  rcases h with hall | ⟨vals, rest, rfl, hvals⟩ |
    ⟨vals, top, rest, hops, hvals, hlt⟩
  · exact Resolved.empty hall
  · exact Resolved.brace hvals
  · exact absurd hlt (Nat.not_lt_zero _)

theorem eval_pushed {s : Expressions} (h : Fresh s) (v : TecoInt) :
    result (eval false) (s.pushed v) =
      .ok ((), { s with
        numbers := v :: s.numbers
        operators := Operator.number :: dropNew s.operators }) := by
  have hresolved := resolved_of_yields_zero (yields_pushed v h.noOperator)
  rw [result_eq_iff_wp, wp_eval_resolved hresolved]
  simp [pushed, h.noSign]

/-- In a fresh argument position, typing an expression and evaluating it has
the outcome of the reference evaluation.  On success exactly one number is
pushed, and the marker of a comma before the expression is removed. -/
theorem typeChain_eval {radix : Nat} (chain : Chain BinaryOp (Literal radix))
    (s : Expressions) (h : Fresh s) :
    result (do typeChain chain; eval false) s =
      (treeValue (chain.parse prec)).map (fun v =>
        ((), { s with
          numbers := v :: s.numbers
          operators := Operator.number :: dropNew s.operators })) := by
  have hopens : Opens s.operators (chain.parse prec) := by
    cases chain.parse prec with
    | lit literal => trivial
    | group inner => trivial
    | node op left right => exact h.noOperator.mono (Nat.zero_le _)
  rw [<- typeTree_chain,
    typeTree_resolves _ (Chain.parse_respects prec chain)
      (resolves_eval false s.braceLevel) (ExprTree.atLeast_zero prec _)
      h.toReady rfl hopens]
  simp only [eval_pushed h]
  cases treeValue (chain.parse prec) <;> rfl

/-- Every expression is written by exactly one tree that respects the
precedence. -/
theorem existsUnique_tree {radix : Nat}
    (chain : Chain BinaryOp (Literal radix)) :
    ∃! t : ExprTree BinaryOp (Literal radix),
      t.Respects prec ∧ t.unparse = chain := by
  refine ⟨chain.parse prec,
    ⟨Chain.parse_respects prec chain, Chain.unparse_parse prec chain⟩, ?_⟩
  rintro t ⟨hrespects, rfl⟩
  exact (ExprTree.parse_unparse prec hrespects).symm

/-- A literal of one digit. -/
def Literal.digit (radix : Nat) (d : Fin 10) : Literal radix where
  digits := [d]
  nonempty := by simp
  fits := by
    intro k hk
    have hzero : k = 0 := by simpa using hk
    simp [hzero, digitsValue]

/-- The chain `2*3`. -/
def twoTimesThree : Chain BinaryOp (Literal 10) :=
  .snoc (.single (.lit (.digit 10 2))) .mul (.lit (.digit 10 3))

/-- The expression `2*3` after `1,`. -/
theorem typeChain_eval_comma :
    result (do typeChain twoTimesThree; eval false)
        { numbers := [1], operators := [Operator.new, Operator.number],
          numSign := 1, braceLevel := 0 } =
      .ok ((),
        { numbers := [6, 1],
          operators := [Operator.number, Operator.number],
          numSign := 1, braceLevel := 0 }) :=
  typeChain_eval twoTimesThree _
    ⟨⟨by simp, rfl⟩, Or.inl (by simp)⟩

/-- The expression `2*3` directly after the comma of `1+,`: evaluating it also
resolves the operator that the comma has left pending. -/
theorem typeChain_eval_pending_operator :
    result (do typeDigits 10 [1]; startPlus; startComma) initial =
        .ok ((),
          { numbers := [1],
            operators := [Operator.new, Operator.real BinaryOp.add,
              Operator.number],
            numSign := 1, braceLevel := 0 }) ∧
      result (do typeChain twoTimesThree; eval false)
        { numbers := [1],
          operators := [Operator.new, Operator.real BinaryOp.add,
            Operator.number],
          numSign := 1, braceLevel := 0 } =
        .ok ((),
          { numbers := [7], operators := [Operator.number],
            numSign := 1, braceLevel := 0 }) ∧
      treeValue (twoTimesThree.parse prec) = .ok 6 := by
  refine ⟨rfl, rfl, rfl⟩

end Expressions
end SciTECO
