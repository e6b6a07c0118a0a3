import SciTECO.Expressions.Precedence

/-!
# Minus before a parenthesis

`-(e)` stands for `-1*(e)`, where the multiplication is an operator like any
other.  This is the negated value of `e` unless an operator waits that is
resolved before a multiplication, or together with it.
-/

namespace SciTECO
namespace Expressions

open Undoable
open Infix

/-- A parenthesised expression has a value, wherever an operand may be
typed. -/
def Parenthesised (body : Exec Expressions Unit) (v : TecoInt) : Prop :=
  forall s, Ready s ->
    result (do startBraceOpen; body; startBraceClose) s =
      .ok ((), s.pushed v)

/-- Behind `a op`: the operator waits for its right operand. -/
def behindOp (s : Expressions) (a : TecoInt) (op : BinaryOp) : Expressions :=
  (s.pushed a).opPushed op

/-- `a op -(e)` evaluates to `a op v` for the negated value `v` of `e`, like
`a op (-(e))`. -/
structure Negates (op : BinaryOp) (a v : TecoInt) (s : Expressions)
    (body : Exec Expressions Unit) : Prop where
  value :
    result (do
        startMinus
        startBraceOpen
        body
        startBraceClose
        eval false) (s.behindOp a op) =
      result (do pushInt (-v); eval false) (s.behindOp a op)
  group :
    result (do
        startMinus
        startBraceOpen
        body
        startBraceClose
        eval false) (s.behindOp a op) =
      result (do
        startBraceOpen
        startMinus
        startBraceOpen
        body
        startBraceClose
        startBraceClose
        eval false) (s.behindOp a op)

/-- The operators which are resolved before a multiplication is pushed, and
which are not associative with it. -/
def tightOps : List BinaryOp := [.pow, .div, .mod]

/-!
## The sign
-/

theorem startMinus_sign {s : Expressions} (h : Ready s) :
    result startMinus s = .ok ((), { s with numSign := -1 }) := by
  have hargs : s.args = 0 :=
    args_append (show s.operators = List.replicate 0 _ ++ s.operators from rfl)
      h.noArgument
  rw [result_eq_iff_wp]
  simp [startMinus, hargs, h.noSign]

theorem result_pushInt (n : TecoInt) (s : Expressions) :
    result (pushInt n) s = .ok ((), s.pushed n) := by
  rw [result_eq_iff_wp]
  simp

theorem eval_resolved {s : Expressions} (h : Resolved s.operators) :
    result (eval false) s = .ok ((), s) := by
  rw [result_eq_iff_wp, wp_eval_resolved h]

theorem braceOpen_noSign {s : Expressions} (h : 0 ≤ s.numSign) :
    result braceOpen s = result startBraceOpen s := by
  unfold startBraceOpen
  rw [result_bind_of_ok (result_get s), if_neg (Int.not_lt.mpr h)]

theorem Ready.sign {s : Expressions} (h : Ready s) : 0 ≤ s.numSign := by
  rw [h.noSign]
  decide

/-- With a sign, the parenthesis is the right operand of a multiplication. -/
theorem startBraceOpen_sign {s : Expressions} (h : Ready s)
    (hresolved : Resolved s.operators) :
    result startBraceOpen { s with numSign := -1 } =
      result (do pushCalc BinaryOp.mul; braceOpen) (s.pushed (-1)) := by
  have hsign : result (setNumSign 1) { s with numSign := -1 } =
      .ok ((), s) := by
    rw [result_eq_iff_wp, wp_setNumSign]
    rw [<- h.noSign]
  unfold startBraceOpen
  rw [result_bind_of_ok (result_get _), if_pos (show (-1 : Int) < 0 by decide),
    result_bind_of_ok hsign, result_bind_of_ok (eval_resolved hresolved),
    result_bind_of_ok (result_pushInt _ s)]

/-- The multiplication is pushed before the parenthesis is opened. -/
theorem minus_brace {s : Expressions} (h : Ready s)
    (hresolved : Resolved s.operators) (k : Exec Expressions Unit) :
    result (do startMinus; startBraceOpen; k) s =
      result (do pushCalc BinaryOp.mul; braceOpen; k) (s.pushed (-1)) := by
  calc
    result (do startMinus; startBraceOpen; k) s =
        result (do startBraceOpen; k) { s with numSign := -1 } :=
      result_bind_of_ok (startMinus_sign h)
    _ = result (do pushCalc BinaryOp.mul; braceOpen; k) (s.pushed (-1)) := by
      rw [result_bind, startBraceOpen_sign h hresolved, <- bind_assoc]
      exact (result_bind (do pushCalc BinaryOp.mul; braceOpen) (fun _ => k)
        (s.pushed (-1))).symm

/-- The parenthesis is the right operand of the multiplication. -/
theorem brace_operand {t : Expressions} {body : Exec Expressions Unit}
    {v : TecoInt} (hbody : Parenthesised body v) (ht : Ready t)
    (k : Exec Expressions Unit) :
    result (do braceOpen; body; startBraceClose; k) t =
      result k (t.pushed v) := by
  have hassoc : (do startBraceOpen; body; startBraceClose; k) =
      ((do startBraceOpen; body; startBraceClose) >>= fun _ => k) := by
    simp only [bind_assoc]
  rw [result_bind, braceOpen_noSign ht.sign]
  calc
    _ = result (do startBraceOpen; body; startBraceClose; k) t :=
      (result_bind _ _ _).symm
    _ = result k (t.pushed v) := by
      rw [hassoc, result_bind_of_ok (hbody t ht)]

/-- An operand below which only weaker operators wait. -/
theorem pushCalc_pushed {s : Expressions} {op : BinaryOp} (v : TecoInt)
    (h : Yields (prec op) s.operators) :
    result (pushCalc op) (s.pushed v) =
      .ok ((), (s.pushed v).opPushed op) := by
  have hyields := yields_pushed v h
  rw [prec_eq_precedence] at hyields
  rw [result_eq_iff_wp, wp_pushCalc_yields hyields]
  rfl

/-- What resolves operators starts with the one that waits. -/
theorem Resolves.operand {p level : Nat} {k : Exec Expressions Unit}
    (hk : Resolves p level k) {s : Expressions} (h : Ready s)
    (hlevel : s.braceLevel = level) {op : BinaryOp} (hp : p ≤ prec op)
    (a v : TecoInt) :
    result k ((s.behindOp a op).pushed v) =
      (applyOp op a v >>= fun x => result k (s.pushed x)) := by
  have hready := ready_opPushed op h a
  rw [hk ((s.behindOp a op).pushed v) op (dropNew s.operators) hlevel rfl hp]
  unfold behindOp
  simp only [pushed_opPushed h, pushed_numbers hready]
  simp [opPushed, pushed_numbers h]

theorem eval_operand {s : Expressions} (h : Ready s) (op : BinaryOp)
    (a v : TecoInt) :
    result (eval false) ((s.behindOp a op).pushed v) =
      (applyOp op a v >>= fun x => result (eval false) (s.pushed x)) :=
  (resolves_eval false s.braceLevel).operand h rfl (Nat.zero_le _) a v

/-!
## Operators that wait
-/

theorem neg_one_product (v : TecoInt) : -1 * v = -v := by
  rw [BitVec.neg_mul]
  exact congrArg Neg.neg (BitVec.one_mul v)

/-- Weaker operators wait for the product. -/
theorem minus_weak {op : BinaryOp} (hop : prec op < prec BinaryOp.mul)
    {a v : TecoInt} {s : Expressions} {body : Exec Expressions Unit}
    (h : Ready s) (hbody : Parenthesised body v) :
    result (do
        startMinus
        startBraceOpen
        body
        startBraceClose
        eval false) (s.behindOp a op) =
      (applyOp op a (-v) >>= fun y => result (eval false) (s.pushed y)) := by
  have hready : Ready (s.behindOp a op) := ready_opPushed op h a
  have hyields : Yields (prec BinaryOp.mul) (s.behindOp a op).operators := by
    refine .inr (.inr ⟨[], op, _, rfl, by simp, ?_⟩)
    rw [<- prec_eq_precedence]
    exact hop
  rw [minus_brace hready .dangling,
    result_bind_of_ok (pushCalc_pushed (-1) hyields)]
  calc
    result (do braceOpen; body; startBraceClose; eval false)
        ((s.behindOp a op).behindOp (-1) BinaryOp.mul) =
        result (eval false)
          (((s.behindOp a op).behindOp (-1) BinaryOp.mul).pushed v) :=
      brace_operand hbody (ready_opPushed BinaryOp.mul hready (-1)) _
    _ = result (eval false) ((s.behindOp a op).pushed (-1 * v)) :=
      eval_operand hready BinaryOp.mul (-1) v
    _ = _ := by
      rw [neg_one_product, eval_operand h]

/-- Other operators are applied to -1 before the multiplication. -/
theorem minus_tight {op : BinaryOp} (hop : prec BinaryOp.mul ≤ prec op)
    {a v : TecoInt} {s : Expressions} {body : Exec Expressions Unit}
    (h : Ready s) (hyields : Yields (prec BinaryOp.mul) s.operators)
    (hbody : Parenthesised body v) :
    result (do
        startMinus
        startBraceOpen
        body
        startBraceClose
        eval false) (s.behindOp a op) =
      (applyOp op a (-1) >>= fun x =>
        result (eval false) (s.pushed (x * v))) := by
  have hready : Ready (s.behindOp a op) := ready_opPushed op h a
  have hcalc : result (pushCalc BinaryOp.mul)
      ((s.behindOp a op).pushed (-1)) =
      (applyOp op a (-1) >>= fun x =>
        .ok ((), s.behindOp x BinaryOp.mul)) := by
    rw [(resolves_pushCalc BinaryOp.mul s.braceLevel).operand h rfl hop]
    simp only [pushCalc_pushed _ hyields]
    rfl
  rw [minus_brace hready .dangling, result_bind, hcalc]
  cases applyOp op a (-1) with
  | error stop => rfl
  | ok x =>
      calc
        result (do braceOpen; body; startBraceClose; eval false)
            (s.behindOp x BinaryOp.mul) =
            result (eval false) ((s.behindOp x BinaryOp.mul).pushed v) :=
          brace_operand hbody (ready_opPushed BinaryOp.mul h x) _
        _ = result (eval false) (s.pushed (x * v)) :=
          eval_operand h BinaryOp.mul x v

/-- `(-(e))` is an operand with the negated value. -/
theorem minus_group {s : Expressions} {body : Exec Expressions Unit}
    {v : TecoInt} (h : Ready s) (hbody : Parenthesised body v) :
    result (do
        startBraceOpen
        startMinus
        startBraceOpen
        body
        startBraceClose
        startBraceClose) s = .ok ((), s.pushed (-v)) := by
  let t : Expressions :=
    { s with
      operators := Operator.brace :: dropNew s.operators
      braceLevel := s.braceLevel + 1 }
  have ht : Ready t := ⟨by simp [t], h.noSign⟩
  have hyields : Yields (prec BinaryOp.mul) t.operators :=
    .inr (.inl ⟨[], dropNew s.operators, rfl, by simp⟩)
  have hresolved : Resolved t.operators :=
    @Resolved.brace [] (dropNew s.operators) (by simp)
  have hready := ready_opPushed BinaryOp.mul ht (-1)
  rw [result_bind_of_ok (startBraceOpen_ready h), minus_brace ht hresolved,
    result_bind_of_ok (pushCalc_pushed (-1) hyields)]
  calc
    result (do braceOpen; body; startBraceClose; startBraceClose)
        (t.behindOp (-1) BinaryOp.mul) =
        result startBraceClose ((t.behindOp (-1) BinaryOp.mul).pushed v) :=
      brace_operand hbody hready _
    _ = result startBraceClose (t.pushed (-v)) := by
      rw [(resolves_startBraceClose s.braceLevel).operand ht rfl
        (Nat.zero_le _), <- neg_one_product v]
      rfl
    _ = .ok ((), s.pushed (-v)) := startBraceClose_group h (-v)

/-- The operand of an operator is resolved with it. -/
theorem operand_value {op : BinaryOp} {a v : TecoInt} {s : Expressions}
    (h : Ready s) :
    result (do pushInt (-v); eval false) (s.behindOp a op) =
      (applyOp op a (-v) >>= fun y => result (eval false) (s.pushed y)) := by
  rw [result_bind_of_ok (result_pushInt _ _), eval_operand h]

/-- `a op -(e)` is `a op (-(e))` if it is `a op v` for the negated value. -/
theorem negates_of_value {op : BinaryOp} {a v : TecoInt} {s : Expressions}
    {body : Exec Expressions Unit} (h : Ready s)
    (hbody : Parenthesised body v)
    (hvalue : result (do
        startMinus
        startBraceOpen
        body
        startBraceClose
        eval false) (s.behindOp a op) =
      (applyOp op a (-v) >>= fun y => result (eval false) (s.pushed y))) :
    Negates op a v s body := by
  have hready : Ready (s.behindOp a op) := ready_opPushed op h a
  have hassoc : (do
      startBraceOpen
      startMinus
      startBraceOpen
      body
      startBraceClose
      startBraceClose
      eval false) = ((do
        startBraceOpen
        startMinus
        startBraceOpen
        body
        startBraceClose
        startBraceClose) >>= fun _ => eval false) := by
    simp only [bind_assoc]
  constructor
  · rw [hvalue, operand_value h]
  · rw [hvalue, hassoc, result_bind_of_ok (minus_group hready hbody),
      eval_operand h]

/-- Every operator but `^*`, `/` and `^/` gets the negated operand. -/
theorem negates_loose {op : BinaryOp} (hop : op ∉ tightOps) {a v : TecoInt}
    {s : Expressions} {body : Exec Expressions Unit} (h : Ready s)
    (hyields : Yields (prec op) s.operators) (hbody : Parenthesised body v) :
    Negates op a v s body := by
  apply negates_of_value h hbody
  by_cases hmul : op = BinaryOp.mul
  · subst hmul
    have hvalue : a * -1 * v = a * -v := by
      rw [BitVec.mul_assoc, neg_one_product]
    rw [minus_tight (Nat.le_refl _) h hyields hbody]
    exact congrArg (fun x => result (eval false) (s.pushed x)) hvalue
  · have hweak : prec op < prec BinaryOp.mul := by
      cases op with
      | mul => exact absurd rfl hmul
      | pow => exact absurd (by decide) hop
      | div => exact absurd (by decide) hop
      | mod => exact absurd (by decide) hop
      | sub => decide
      | add => decide
      | and => decide
      | xor => decide
      | or => decide
    exact minus_weak hweak h hbody

/-- For the other operators both sides are values. -/
theorem negates_tight_iff {op : BinaryOp} (hop : op ∈ tightOps)
    {a v : TecoInt} {s : Expressions} {body : Exec Expressions Unit}
    (h : Fresh s) (hbody : Parenthesised body v) :
    Negates op a v s body <->
      (applyOp op a (-1)).map (fun x => x * v) = applyOp op a (-v) := by
  have hprec : prec BinaryOp.mul ≤ prec op := by
    simp only [tightOps, List.mem_cons, List.not_mem_nil, or_false] at hop
    rcases hop with rfl | rfl | rfl <;> decide
  have htight := minus_tight (a := a) hprec h.toReady
    (h.noOperator.mono (Nat.zero_le _)) hbody
  simp only [eval_pushed h] at htight
  have hvalue : result (do pushInt (-v); eval false) (s.behindOp a op) =
      (applyOp op a (-v) >>= fun y => result (eval false) (s.pushed y)) :=
    operand_value h.toReady
  simp only [eval_pushed h] at hvalue
  constructor
  · intro hnegates
    have heq := hnegates.value
    rw [htight, hvalue] at heq
    cases hleft : applyOp op a (-1) with
    | error stop =>
        cases hright : applyOp op a (-v) with
        | error stop' =>
            rw [hleft, hright] at heq
            cases heq
            rfl
        | ok y =>
            rw [hleft, hright] at heq
            cases heq
    | ok x =>
        cases hright : applyOp op a (-v) with
        | error stop' =>
            rw [hleft, hright] at heq
            cases heq
        | ok y =>
            rw [hleft, hright] at heq
            have hnumbers := congrArg
              (fun r => (r.toOption.map (fun p => p.2.numbers.headD 0))) heq
            exact congrArg Except.ok (Option.some.inj hnumbers)
  · intro heq
    apply negates_of_value h.toReady hbody
    rw [htight]
    simp only [eval_pushed h]
    rw [<- heq]
    cases applyOp op a (-1) <;> rfl

/-!
## Expressions in parentheses
-/

theorem parenthesised_chain {radix : Nat}
    {chain : Chain BinaryOp (Literal radix)} {v : TecoInt}
    (hv : treeValue (chain.parse prec) = .ok v) :
    Parenthesised (typeChain chain) v := by
  intro s h
  have hready : Ready { s with
      operators := Operator.brace :: dropNew s.operators
      braceLevel := s.braceLevel + 1 } := ⟨by simp, h.noSign⟩
  have hresolves := typeTree_resolves (chain.parse prec)
    (Chain.parse_respects prec chain)
    (resolves_startBraceClose s.braceLevel) (ExprTree.atLeast_zero prec _)
    hready rfl (opens_brace (dropNew s.operators) _)
  rw [typeTree_chain, hv] at hresolves
  rw [result_bind_of_ok (startBraceOpen_ready h), hresolves]
  exact startBraceClose_group h v

/-- A digit in parentheses. -/
def digitBody (d : Fin 10) : Exec Expressions Unit :=
  typeChain (.single (.lit (Literal.digit 10 d)))

theorem parenthesised_digit (d : Fin 10) :
    Parenthesised (digitBody d) (Literal.digit 10 d).value :=
  parenthesised_chain rfl

theorem fresh_initial : Fresh initial :=
  ⟨⟨by simp [initial], rfl⟩, .inl (by simp [initial])⟩

/-- The operands are 2 and 0, 6 and 3, 5 and 3. -/
theorem not_negates_tight {op : BinaryOp} (hop : op ∈ tightOps) :
    exists a d, ¬ Negates op a (Literal.digit 10 d).value initial
      (digitBody d) := by
  have hiff := fun a (d : Fin 10) =>
    negates_tight_iff (a := a) hop fresh_initial (parenthesised_digit d)
  simp only [tightOps, List.mem_cons, List.not_mem_nil, or_false] at hop
  rcases hop with rfl | rfl | rfl
  · refine ⟨2, 0, fun h => ?_⟩
    exact absurd ((hiff 2 0).mp h) (by decide)
  · refine ⟨6, 3, fun h => ?_⟩
    exact absurd ((hiff 6 3).mp h) (by decide)
  · refine ⟨5, 3, fun h => ?_⟩
    exact absurd ((hiff 5 3).mp h) (by decide)

/-- Minus before a parenthesis negates it behind an operator, whatever the
operands are and whatever waits before them, if and only if the operator is not
`^*`, `/` or `^/`. -/
theorem negates_iff (op : BinaryOp) :
    (forall a v s body, Ready s -> Yields (prec op) s.operators ->
      Parenthesised body v -> Negates op a v s body) <-> op ∉ tightOps := by
  constructor
  · intro h hop
    rcases not_negates_tight hop with ⟨a, d, hnot⟩
    exact hnot (h a _ initial _ fresh_initial.toReady
      (fresh_initial.noOperator.mono (Nat.zero_le _)) (parenthesised_digit d))
  · intro hop a v s body hready hyields hbody
    exact negates_loose hop hready hyields hbody

/-- `-(e)` behind an operator evaluates like `-1*(e)`, and it negates the value
of `e` unless the operator is `^*`, `/` or `^/`. -/
theorem startMinus_parenthesis {op : BinaryOp} {a v : TecoInt}
    {s : Expressions} {body : Exec Expressions Unit} (h : Ready s)
    (hyields : Yields (prec op) s.operators) (hbody : Parenthesised body v) :
    result (do
        startMinus
        startBraceOpen
        body
        startBraceClose
        eval false) (s.behindOp a op) =
      result (do
        pushInt (-1)
        startMul
        startBraceOpen
        body
        startBraceClose
        eval false) (s.behindOp a op) ∧
      (op ∉ tightOps -> Negates op a v s body) := by
  have hready : Ready (s.behindOp a op) := ready_opPushed op h a
  constructor
  · rw [minus_brace hready .dangling, result_bind_of_ok (result_pushInt _ _)]
    apply result_bind_congr (pushCalc_sign (pushed_sign hready.sign))
    intro _ t hsign
    rw [result_bind, braceOpen_noSign hsign]
    exact (result_bind startBraceOpen
      (fun _ => do body; startBraceClose; eval false) t).symm
  · intro hop
    exact negates_loose hop h hyields hbody

/-- `1+-(3)`. -/
theorem startMinus_parenthesis_sum :
    result (do
        startMinus
        startBraceOpen
        digitBody 3
        startBraceClose
        eval false) (initial.behindOp 1 .add) =
      result (do
        pushInt (-1)
        startMul
        startBraceOpen
        digitBody 3
        startBraceClose
        eval false) (initial.behindOp 1 .add) ∧
      (BinaryOp.add ∉ tightOps -> Negates .add 1 3 initial (digitBody 3)) :=
  startMinus_parenthesis fresh_initial.toReady
    (fresh_initial.noOperator.mono (Nat.zero_le _)) (parenthesised_digit 3)

/-- Dividing 6 by the negated 3 gives -18. -/
theorem startMinus_parenthesis_division :
    ¬ Negates BinaryOp.div 6 3 initial (digitBody 3) := by
  intro h
  have hiff : Negates BinaryOp.div 6 3 initial (digitBody 3) <->
      (applyOp BinaryOp.div 6 (-1)).map (fun x => x * 3) =
        applyOp BinaryOp.div 6 (-3) :=
    negates_tight_iff (by decide) fresh_initial (parenthesised_digit 3)
  exact absurd (hiff.mp h) (by decide)

end Expressions
end SciTECO
