import Mathlib.Data.BitVec
import SciTECO.Expressions.Rules

/-!
# Arithmetic

What the operators compute, compared with the integers.  Results are taken
modulo 2^64.
-/

namespace SciTECO

open Undoable

/-! ## The results of the operators -/

/-- A power of integers, with the fraction cut off.  0 has no negative
powers. -/
def intPower (base power : Int) : Option Int :=
  if 0 ≤ power then some (base ^ power.toNat)
  else if base = 0 then none
  else some (Int.tdiv 1 (base ^ (-power).toNat))

/-- The result of an operator.  A quotient is rounded toward zero and a
remainder has the sign of the dividend. -/
def ExactResult (op : BinaryOp) (vleft vright result : TecoInt) : Prop :=
  match op with
  | .pow => exists n, intPower vleft.toInt vright.toInt = some n ∧
      result = BitVec.ofInt 64 n
  | .mod => vright ≠ 0 ∧
      result = BitVec.ofInt 64 (vleft.toInt.tmod vright.toInt)
  | .div => vright ≠ 0 ∧
      result = BitVec.ofInt 64 (vleft.toInt.tdiv vright.toInt)
  | .mul => result = BitVec.ofInt 64 (vleft.toInt * vright.toInt)
  | .sub => result = BitVec.ofInt 64 (vleft.toInt - vright.toInt)
  | .add => result = BitVec.ofInt 64 (vleft.toInt + vright.toInt)
  | .and => forall i,
      result.getLsbD i = (vleft.getLsbD i && vright.getLsbD i)
  | .xor => forall i,
      result.getLsbD i = (vleft.getLsbD i ^^ vright.getLsbD i)
  | .or => forall i,
      result.getLsbD i = (vleft.getLsbD i || vright.getLsbD i)

/-- An operator has no result for its operands. -/
def NoResult (op : BinaryOp) (vleft vright : TecoInt) : Prop :=
  match op with
  | .pow => vleft = 0 ∧ vright.slt 0
  | .mod | .div => vright = 0
  | _ => False

/-- The quotient of the operands is not a 64-bit integer. -/
def Overflows (op : BinaryOp) (vleft vright : TecoInt) : Prop :=
  (op = .div ∨ op = .mod) ∧ vleft = BitVec.intMin 64 ∧ vright = -1

/-- A power of -1 with a negative and even exponent. -/
def EvenInverse (vleft vright : TecoInt) : Prop :=
  vleft = -1 ∧ vright.slt 0 ∧ 2 ∣ vright.toInt

/-! ## Powers -/

theorem slt_zero (n : TecoInt) : n.slt 0 = n.msb := BitVec.slt_zero_eq_msb

theorem slt_zero_iff {n : TecoInt} : n.slt 0 = true <-> n.toInt < 0 :=
  BitVec.slt_iff_toInt_lt

theorem lowBit (n : TecoInt) : n &&& 1 ≠ 0 <-> n.toNat % 2 = 1 := by
  have hbit : (n &&& 1).toNat = n.toNat % 2 := by
    rw [BitVec.toNat_and]
    exact Nat.and_one_is_mod n.toNat
  rw [Ne, ← BitVec.toNat_inj, hbit]
  change ¬ n.toNat % 2 = 0 <-> _
  omega

/-- The rest of the exponent. -/
theorem halved {n : TecoInt} (h : n.msb = false) :
    (n.sshiftRight 1).toNat = n.toNat / 2 ∧ (n.sshiftRight 1).msb = false := by
  have hhalf : (n.sshiftRight 1).toNat = n.toNat / 2 := by
    rw [BitVec.toNat_sshiftRight_of_msb_false h, Nat.shiftRight_eq_div_pow]
  refine ⟨hhalf, ?_⟩
  rw [BitVec.msb_eq_false_iff_two_mul_lt] at h ⊢
  rw [hhalf]
  omega

/-- The loop multiplies its result with a power of the base. -/
theorem powLoop_eq (fuel : Nat) :
    forall vleft vright result : TecoInt, vright.msb = false ->
      vright.toNat < 2 ^ fuel ->
      Expressions.powLoop fuel vleft vright result =
        result * vleft ^ vright.toNat := by
  induction fuel with
  | zero =>
      intro vleft vright result _ hlt
      have hzero : vright.toNat = 0 := Nat.lt_one_iff.mp hlt
      rw [hzero, pow_zero, mul_one]
      rfl
  | succ fuel ih =>
      intro vleft vright result hmsb hlt
      rcases halved hmsb with ⟨hhalf, hmsb'⟩
      have hbits : vright.toNat = 2 * (vright.toNat / 2) + vright.toNat % 2 :=
        (Nat.div_add_mod vright.toNat 2).symm
      have hresult : (if vright &&& 1 ≠ 0 then result * vleft else result) =
          result * vleft ^ (vright.toNat % 2) := by
        by_cases hbit : vright &&& 1 ≠ 0
        · rw [if_pos hbit, (lowBit vright).mp hbit, pow_one]
        · have heven : vright.toNat % 2 = 0 := by
            have hnot := mt (lowBit vright).mpr hbit
            omega
          rw [if_neg hbit, heven, pow_zero, mul_one]
      rw [Expressions.powLoop, hresult]
      by_cases hend : vright.sshiftRight 1 = 0
      · rw [if_pos hend]
        have hzero : vright.toNat / 2 = 0 := by
          rw [← hhalf, hend]
          rfl
        conv_rhs => rw [hbits, hzero]
        rw [Nat.mul_zero, Nat.zero_add]
      · rw [if_neg hend, ih _ _ _ hmsb' (by rw [hhalf, Nat.pow_succ] at *; omega),
          hhalf]
        conv_rhs => rw [hbits]
        rw [pow_add, pow_mul, pow_two, mul_assoc, mul_comm (vleft ^ _)]

theorem ofInt_power (base : Int) (n : Nat) :
    BitVec.ofInt 64 (base ^ n) = (BitVec.ofInt 64 base) ^ n := by
  induction n with
  | zero =>
      rw [pow_zero, pow_zero]
      rfl
  | succ n ih => rw [pow_succ, pow_succ, BitVec.ofInt_mul, ih]

/-- A power with a positive exponent. -/
theorem applyOp_positive {vleft vright : TecoInt} (h : 0 < vright.toInt) :
    Expressions.applyOp .pow vleft vright =
      .ok (BitVec.ofInt 64 (vleft.toInt ^ vright.toInt.toNat)) := by
  have hzero : vright ≠ 0 := by
    rintro rfl
    exact absurd h (by decide)
  have hsign : ¬ vright.slt 0 = true := by
    rw [slt_zero_iff]
    omega
  have hmsb : vright.msb = false := by
    rw [← slt_zero]
    exact Bool.eq_false_iff.mpr hsign
  rw [Expressions.applyOp, if_neg hzero, if_neg hsign,
    powLoop_eq 64 _ _ _ hmsb vright.isLt, one_mul, ofInt_power,
    BitVec.ofInt_toInt, BitVec.toInt_eq_toNat_of_msb hmsb, Int.toNat_natCast]

/-- The fraction of an inverse is cut off. -/
theorem inverse_trunc {base : Int} (n : Nat) (hn : 0 < n)
    (hzero : base ≠ 0) (hone : base ≠ 1) (hminus : base ≠ -1) :
    Int.tdiv 1 (base ^ n) = 0 := by
  have hbase : 2 ≤ base.natAbs := by omega
  have hpow : 2 ≤ base.natAbs ^ n :=
    Nat.le_trans hbase (Nat.le_self_pow (Nat.pos_iff_ne_zero.mp hn) _)
  rw [← Int.natAbs_eq_zero, Int.natAbs_tdiv, Int.natAbs_pow]
  exact Nat.div_eq_of_lt hpow

theorem minusOne_power (n : Nat) :
    (-1 : Int) ^ n = if n % 2 = 0 then 1 else -1 := by
  rcases Nat.mod_two_eq_zero_or_one n with h | h
  · rw [if_pos h]
    exact Even.neg_one_pow (Nat.even_iff.mpr h)
  · rw [if_neg (by omega)]
    exact Odd.neg_one_pow (Nat.odd_iff.mpr h)

/-- What the code computes for a negative exponent. -/
theorem applyOp_negative {vleft vright : TecoInt} (h : vright.toInt < 0)
    (hleft : vleft ≠ 0) :
    Expressions.applyOp .pow vleft vright =
      .ok (if vleft = 1 ∨ vleft = -1 then vleft else 0) := by
  have hzero : vright ≠ 0 := by
    rintro rfl
    exact absurd h (by decide)
  rw [Expressions.applyOp, if_neg hzero, if_pos (slt_zero_iff.mpr h),
    if_neg hleft]

theorem toInt_ne {n m : TecoInt} (h : n ≠ m) : n.toInt ≠ m.toInt :=
  fun heq => h (BitVec.eq_of_toInt_eq heq)

/-- The inverse of a power, as it is computed, unless the base is -1 and the
exponent even. -/
theorem inverse_iff {vleft vright : TecoInt} (h : vright.toInt < 0)
    (hleft : vleft ≠ 0) :
    (if vleft = 1 ∨ vleft = -1 then vleft else 0) =
        BitVec.ofInt 64
          (Int.tdiv 1 (vleft.toInt ^ (-vright.toInt).toNat)) <->
      ¬ EvenInverse vleft vright := by
  have hpos : 0 < (-vright.toInt).toNat := by omega
  by_cases hone : vleft = 1
  · subst hone
    rw [if_pos (.inl rfl)]
    have hvalue : (1 : TecoInt).toInt = 1 := by decide
    rw [hvalue, one_pow]
    constructor
    · rintro _ ⟨hminus, _⟩
      exact absurd hminus (by decide)
    · exact fun _ => rfl
  by_cases hminus : vleft = -1
  · subst hminus
    rw [if_pos (.inr rfl)]
    have hvalue : (-1 : TecoInt).toInt = -1 := by decide
    rw [hvalue, minusOne_power]
    have heven : (-vright.toInt).toNat % 2 = 0 <-> 2 ∣ vright.toInt := by omega
    by_cases hdvd : 2 ∣ vright.toInt
    · rw [if_pos (heven.mpr hdvd)]
      constructor
      · exact fun heq => absurd heq (by decide)
      · exact fun hnot => absurd ⟨rfl, slt_zero_iff.mpr h, hdvd⟩ hnot
    · rw [if_neg (fun hmod => hdvd (heven.mp hmod))]
      constructor
      · exact fun _ hslip => hdvd hslip.2.2
      · exact fun _ => by decide
  · rw [if_neg (not_or.mpr ⟨hone, hminus⟩), inverse_trunc _ hpos
      (toInt_ne hleft) (toInt_ne hone) (toInt_ne hminus)]
    constructor
    · exact fun _ hslip => hminus hslip.1
    · exact fun _ => rfl

/-! ## The operators -/

/-- The result of an operator, where a negative number to the power of 0 is -1.
-/
def ExpectedResult (op : BinaryOp) (vleft vright result : TecoInt) : Prop :=
  if op = .pow ∧ vright = 0 then result = if vleft.slt 0 then -1 else 1
  else ExactResult op vleft vright result

theorem exact_expected {op : BinaryOp} {vleft vright result : TecoInt}
    (hop : op ≠ .pow) (h : ExactResult op vleft vright result) :
    ExpectedResult op vleft vright result := by
  unfold ExpectedResult
  rw [if_neg (fun hpow => hop hpow.1)]
  exact h

/-- Divisions and remainders. -/
theorem division_exact {message : String}
    {operation : TecoInt -> TecoInt -> TecoInt} {vleft vright : TecoInt}
    (h : ¬ (vleft = BitVec.intMin 64 ∧ vright = -1)) :
    (vright = 0 ∧ Expressions.division message operation vleft vright =
      .error (.error (TecoError.failed message))) ∨
    (vright ≠ 0 ∧ Expressions.division message operation vleft vright =
      .ok (operation vleft vright)) := by
  unfold Expressions.division
  by_cases hzero : vright = 0
  · rw [if_pos hzero]
    exact .inl ⟨hzero, rfl⟩
  · rw [if_neg hzero, if_neg h]
    exact .inr ⟨hzero, rfl⟩

theorem sdiv_exact {vleft vright : TecoInt}
    (h : ¬ (vleft = BitVec.intMin 64 ∧ vright = -1)) :
    vleft.sdiv vright =
      BitVec.ofInt 64 (vleft.toInt.tdiv vright.toInt) := by
  rw [← BitVec.toInt_sdiv_of_ne_or_ne vleft vright (not_and_or.mp h),
    BitVec.ofInt_toInt]

theorem srem_exact (vleft vright : TecoInt) :
    vleft.srem vright =
      BitVec.ofInt 64 (vleft.toInt.tmod vright.toInt) := by
  rw [← BitVec.toInt_srem, BitVec.ofInt_toInt]

theorem pow_expected {vleft vright : TecoInt}
    (h : ¬ EvenInverse vleft vright) :
    (NoResult .pow vleft vright ∧
      exists err, Expressions.applyOp .pow vleft vright =
        .error (.error err)) ∨
    exists result, Expressions.applyOp .pow vleft vright = .ok result ∧
      ExpectedResult .pow vleft vright result := by
  rcases lt_trichotomy vright.toInt 0 with hneg | hzero | hpos
  · have hright : vright ≠ 0 := by
      rintro rfl
      exact absurd hneg (by decide)
    by_cases hleft : vleft = 0
    · have herr : Expressions.applyOp .pow vleft vright =
          .error (.error
            (TecoError.failed "Negative power of 0 is not defined")) := by
        rw [Expressions.applyOp, if_neg hright,
          if_pos (slt_zero_iff.mpr hneg), if_pos hleft]
      exact .inl ⟨⟨hleft, slt_zero_iff.mpr hneg⟩, _, herr⟩
    · refine .inr ⟨_, applyOp_negative hneg hleft, ?_⟩
      unfold ExpectedResult
      rw [if_neg (fun hpow => hright hpow.2)]
      refine ⟨_, ?_, (inverse_iff hneg hleft).mpr h⟩
      have hbase : vleft.toInt ≠ 0 := toInt_ne hleft
      rw [intPower, if_neg (by omega), if_neg hbase]
  · have hright : vright = 0 := BitVec.eq_of_toInt_eq hzero
    refine .inr ⟨_, if_pos hright, ?_⟩
    unfold ExpectedResult
    rw [if_pos ⟨rfl, hright⟩]
  · have hright : vright ≠ 0 := by
      rintro rfl
      exact absurd hpos (by decide)
    refine .inr ⟨_, applyOp_positive hpos, ?_⟩
    unfold ExpectedResult
    rw [if_neg (fun hpow => hright hpow.2)]
    exact ⟨_, if_pos (Int.le_of_lt hpos), rfl⟩

/-- The switch over the operators, without the operands which it does not
provide for. -/
theorem applyOp_expected {op : BinaryOp} {vleft vright : TecoInt}
    (hquotient : ¬ Overflows op vleft vright)
    (hinverse : ¬ (op = .pow ∧ EvenInverse vleft vright)) :
    (NoResult op vleft vright ∧
      exists err, Expressions.applyOp op vleft vright =
        .error (.error err)) ∨
    exists result, Expressions.applyOp op vleft vright = .ok result ∧
      ExpectedResult op vleft vright result := by
  cases op with
  | pow => exact pow_expected (fun h => hinverse ⟨rfl, h⟩)
  | mod =>
      rcases division_exact (fun h => hquotient ⟨.inr rfl, h⟩) with
        ⟨hzero, herr⟩ | ⟨hzero, hok⟩
      · exact .inl ⟨hzero, _, herr⟩
      · exact .inr ⟨_, hok, exact_expected (by decide)
          ⟨hzero, srem_exact vleft vright⟩⟩
  | div =>
      have hfits : ¬ (vleft = BitVec.intMin 64 ∧ vright = -1) :=
        fun h => hquotient ⟨.inl rfl, h⟩
      rcases division_exact hfits with ⟨hzero, herr⟩ | ⟨hzero, hok⟩
      · exact .inl ⟨hzero, _, herr⟩
      · exact .inr ⟨_, hok, exact_expected (by decide)
          ⟨hzero, sdiv_exact hfits⟩⟩
  | mul =>
      refine .inr ⟨_, rfl, exact_expected (by decide) ?_⟩
      change _ = BitVec.ofInt 64 _
      rw [BitVec.ofInt_mul, BitVec.ofInt_toInt, BitVec.ofInt_toInt]
  | sub =>
      refine .inr ⟨_, rfl, exact_expected (by decide) ?_⟩
      change _ = BitVec.ofInt 64 _
      rw [Int.sub_eq_add_neg, BitVec.ofInt_add, BitVec.ofInt_neg,
        BitVec.ofInt_toInt, BitVec.ofInt_toInt, BitVec.sub_eq_add_neg]
  | add =>
      refine .inr ⟨_, rfl, exact_expected (by decide) ?_⟩
      change _ = BitVec.ofInt 64 _
      rw [BitVec.ofInt_add, BitVec.ofInt_toInt, BitVec.ofInt_toInt]
  | and =>
      exact .inr ⟨_, rfl, exact_expected (by decide)
        (fun _ => BitVec.getLsbD_and)⟩
  | xor =>
      exact .inr ⟨_, rfl, exact_expected (by decide)
        (fun _ => BitVec.getLsbD_xor)⟩
  | or =>
      exact .inr ⟨_, rfl, exact_expected (by decide)
        (fun _ => BitVec.getLsbD_or)⟩

namespace Expressions

variable {s : Expressions} {op : BinaryOp} {vleft vright : TecoInt}
  {numbers : List TecoInt} {operators : List Operator}

/-- `teco_expressions_calc()` with two operands pushes the expected result, or
it fails where there is none. -/
theorem calcTop_expected
    (hops : s.operators =
      Operator.number :: Operator.real op :: Operator.number :: operators)
    (hnums : s.numbers = vright :: vleft :: numbers)
    (hquotient : ¬ Overflows op vleft vright)
    (hinverse : ¬ (op = .pow ∧ EvenInverse vleft vright)) :
    wp calcTop
      (fun _ t => exists result, ExpectedResult op vleft vright result ∧
        t = (s.dropCalc operators).pushed result)
      (fun _ t => NoResult op vleft vright ∧ t = s.dropCalc operators)
      (fun _ => False) s := by
  rw [wp_calcTop_real hops, hnums]
  dsimp only [List.tail_cons, List.headD_cons]
  rcases applyOp_expected hquotient hinverse with
    ⟨hnone, err, herr⟩ | ⟨result, hok, hresult⟩
  · rw [herr]
    exact ⟨hnone, rfl⟩
  · rw [hok]
    exact ⟨result, hresult, rfl⟩

/-- 7 / -2 is -3. -/
theorem calcTop_expected_quotient :
    wp calcTop
      (fun _ t => exists result, ExpectedResult .div 7 (-2) result ∧
        t = (dropCalc
          { numbers := [-2, 7]
            operators := [.number, .real .div, .number]
            numSign := 1
            braceLevel := 0 } []).pushed result)
      (fun _ t => NoResult .div 7 (-2) ∧ t = dropCalc
          { numbers := [-2, 7]
            operators := [.number, .real .div, .number]
            numSign := 1
            braceLevel := 0 } [])
      (fun _ => False)
      { numbers := [-2, 7]
        operators := [.number, .real .div, .number]
        numSign := 1
        braceLevel := 0 } :=
  calcTop_expected rfl rfl (fun h => absurd h.2.1 (by decide))
    (fun h => absurd h.1 (by decide))

/-- The least number divided by -1 is not checked for, and a negative number to
the power of 0 is not 1. -/
theorem calcTop_inexact :
    (¬ wp calcTop
      (fun _ t => exists result,
        ExactResult .div (BitVec.intMin 64) (-1) result ∧
          t.numbers = [result])
      (fun _ _ => True) (fun _ => False)
      { numbers := [-1, BitVec.intMin 64]
        operators := [.number, .real .div, .number]
        numSign := 1
        braceLevel := 0 }) ∧
    ¬ wp calcTop
      (fun _ t => exists result, ExactResult .pow (-2) 0 result ∧
        t.numbers = [result])
      (fun _ _ => True) (fun _ => False)
      { numbers := [0, -2]
        operators := [.number, .real .pow, .number]
        numSign := 1
        braceLevel := 0 } := by
  constructor
  · rw [wp_calcTop_real rfl]
    exact id
  · rw [wp_calcTop_real rfl]
    rintro ⟨result, ⟨n, hn, hresult⟩, hpushed⟩
    cases hn
    cases hpushed
    exact absurd hresult (by decide)

end Expressions

/-! ## The laws of powers -/

/-- The power operator. -/
def power (vleft vright : TecoInt) : Except (Stop TecoError Fault) TecoInt :=
  Expressions.applyOp .pow vleft vright

/-- The laws for a base and an exponent. -/
structure PowerLaws (vleft vright : TecoInt) : Prop where
  positive : 0 < vright.toInt ->
    power vleft vright =
      .ok (BitVec.ofInt 64 (vleft.toInt ^ vright.toInt.toNat))
  sum : forall m n : TecoInt, 0 < m.toInt -> 0 < n.toInt ->
    m.toInt + n.toInt = vright.toInt ->
    exists x y, power vleft m = .ok x ∧ power vleft n = .ok y ∧
      power vleft vright = .ok (x * y)
  negative : vright.toInt < 0 -> vleft ≠ 0 ->
    power vleft vright = .ok
      (BitVec.ofInt 64 (Int.tdiv 1 (vleft.toInt ^ (-vright.toInt).toNat)))
  inverse : vright.toInt < 0 -> vright ≠ BitVec.intMin 64 ->
    vleft = 1 ∨ vleft = -1 -> power vleft vright = power vleft (-vright)

theorem toInt_neg_of_ne {n : TecoInt} (h : n ≠ BitVec.intMin 64) :
    (-n).toInt = -n.toInt := by
  rw [BitVec.toInt_neg_of_ne_intMin h]

theorem power_sum {vleft vright m n : TecoInt} (hm : 0 < m.toInt)
    (hn : 0 < n.toInt) (hsum : m.toInt + n.toInt = vright.toInt) :
    exists x y, power vleft m = .ok x ∧ power vleft n = .ok y ∧
      power vleft vright = .ok (x * y) := by
  refine ⟨_, _, applyOp_positive hm, applyOp_positive hn, ?_⟩
  have hnat : vright.toInt.toNat = m.toInt.toNat + n.toInt.toNat := by omega
  rw [power, applyOp_positive (by omega), hnat, pow_add, BitVec.ofInt_mul]

/-- For an odd exponent, and for 1, a power is its own inverse. -/
theorem power_inverse {vleft vright : TecoInt} (h : vright.toInt < 0)
    (hmin : vright ≠ BitVec.intMin 64) (hone : vleft = 1 ∨ vleft = -1)
    (hslip : ¬ EvenInverse vleft vright) :
    power vleft vright = power vleft (-vright) := by
  have hneg := toInt_neg_of_ne hmin
  have hpos : 0 < (-vright).toInt := by omega
  have hleft : vleft ≠ 0 := by
    rcases hone with rfl | rfl
    · decide
    · decide
  rw [power, power, applyOp_positive hpos, applyOp_negative h hleft,
    (inverse_iff h hleft).mpr hslip, hneg]
  rcases hone with rfl | rfl
  · have hvalue : (1 : TecoInt).toInt = 1 := by decide
    rw [hvalue, one_pow]
    rfl
  · have hvalue : (-1 : TecoInt).toInt = -1 := by decide
    rw [hvalue, minusOne_power]
    split <;> rfl

/-- The laws of powers hold unless the base is -1 and the exponent is negative
and even. -/
theorem powerLaws_iff (vleft vright : TecoInt) :
    PowerLaws vleft vright <-> ¬ EvenInverse vleft vright := by
  constructor
  · rintro hlaws hslip
    have hneg := slt_zero_iff.mp hslip.2.1
    have hleft : vleft ≠ 0 := by
      rw [hslip.1]
      decide
    have hvalue := hlaws.negative hneg hleft
    rw [power, applyOp_negative hneg hleft] at hvalue
    exact (inverse_iff hneg hleft).mp (Except.ok.inj hvalue) hslip
  · intro hslip
    refine ⟨applyOp_positive, ?_, ?_, ?_⟩
    · exact fun m n hm hn hsum => power_sum hm hn hsum
    · intro hneg hleft
      rw [power, applyOp_negative hneg hleft,
        (inverse_iff hneg hleft).mpr hslip]
    · exact fun hneg hmin hone => power_inverse hneg hmin hone hslip

/-- -1 to the power of -2 is computed as -1. -/
theorem power_minusOne : ¬ PowerLaws (-1) (-2) := by
  intro hlaws
  have hvalue := hlaws.inverse (by decide) (by decide) (.inr rfl)
  rw [power, power, applyOp_negative (by decide) (by decide)] at hvalue
  have hright : Expressions.applyOp .pow (-1) (- -2) = .ok 1 := by decide
  rw [hright] at hvalue
  exact absurd (Except.ok.inj hvalue) (by decide)

end SciTECO
