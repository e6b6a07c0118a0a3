import Mathlib.Tactic.Ring
import SciTECO.Expressions.Arithmetic
import SciTECO.Expressions.UnaryMinus

/-!
# Signed literals

A minus negates the number that is pushed for the first digit.  Every later
digit is added to the number so far, or subtracted if that is negative.
-/

namespace SciTECO
namespace Expressions

open Undoable

/-- A number with the sign of the literal. -/
def withSign (minus : Bool) (n : Int) : TecoInt :=
  BitVec.ofInt 64 (if minus then -n else n)

/-- The digits which do not go into the direction of the sign, each at its
place.  `n` is what has been typed and `m` are the misadded digits in it: 0 is
not negative even behind a minus, and the numbers wrap around. -/
def misaddedFrom (minus : Bool) (radix : Nat) :
    Int -> Int -> List (Fin 10) -> Int
  | _, m, [] => m
  | n, m, digit :: digits =>
      misaddedFrom minus radix (n * radix + digit.val)
        (m * radix +
          if (withSign minus (n - 2 * m)).slt 0 = minus then (0 : Int)
          else digit.val)
        digits

/-- The first digit takes the sign. -/
def misadded (minus : Bool) (radix : Nat) : List (Fin 10) -> Int
  | [] => 0
  | digit :: digits => misaddedFrom minus radix digit.val 0 digits

/-!
## Digits
-/

theorem misaddedFrom_zero {minus : Bool} {radix : Nat}
    {digits : List (Fin 10)} :
    forall {front : List (Fin 10)},
      (forall mid digit rest, digits = mid ++ digit :: rest -> digit ≠ 0 ->
        (withSign minus (digitsValue radix (front ++ mid))).slt 0 = minus) ->
      misaddedFrom minus radix (digitsValue radix front) 0 digits = 0 := by
  induction digits with
  | nil => exact fun _ => rfl
  | cons digit digits ih =>
      intro front h
      have hnone : (0 : Int) * radix +
          (if (withSign minus (digitsValue radix front - 2 * 0)).slt 0 = minus
            then 0 else (digit.val : Int)) = 0 := by
        rw [Int.zero_mul, Int.zero_add, Int.mul_zero, Int.sub_zero]
        by_cases hzero : digit = 0
        · rw [hzero]
          exact ite_self 0
        · have hsign := h [] digit digits rfl hzero
          rw [List.append_nil] at hsign
          exact if_pos hsign
      have hfront : (digitsValue radix front : Int) * radix + digit.val =
          (digitsValue radix (front ++ [digit]) : Nat) := by
        rw [digitsValue_snoc]
        push_cast
        rfl
      unfold misaddedFrom
      rw [hnone, hfront]
      apply ih
      intro mid digit' rest heq hne
      have hsign := h (digit :: mid) digit' rest
        (congrArg (digit :: .) heq) hne
      rw [List.append_assoc]
      exact hsign

/-- Nothing is misadded when every other digit is typed behind a number of the
sign, unless it is a zero. -/
theorem misadded_zero {minus : Bool} {radix : Nat} {digits : List (Fin 10)}
    (h : forall front digit rest, digits = front ++ digit :: rest ->
      front ≠ [] -> digit ≠ 0 ->
      (withSign minus (digitsValue radix front)).slt 0 = minus) :
    misadded minus radix digits = 0 := by
  cases digits with
  | nil => rfl
  | cons first digits =>
      have hfirst : (digitsValue radix [first] : Int) = first.val := by
        simp [digitsValue]
      change misaddedFrom minus radix first.val 0 digits = 0
      rw [<- hfirst]
      apply misaddedFrom_zero
      intro mid digit rest heq hne
      exact h (first :: mid) digit rest (congrArg (first :: .) heq)
        (List.cons_ne_nil first mid) hne

end Expressions
end SciTECO
