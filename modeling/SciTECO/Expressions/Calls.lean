import Mathlib.Logic.Relation
import SciTECO.Expressions.Rules

/-!
# Runs of the expression stacks

The calls which the commands make into `expressions.c`, and the states that can
be reached by them.
-/

namespace SciTECO
namespace Expressions

open Undoable

/-- How many of the `teco_expressions_args()` arguments a command pops.  All
callers of `teco_expressions_pop_num()` and `teco_expressions_brace_return()`
take this number from `teco_expressions_args()`. -/
structure Fetch where
  count : Nat -> Nat
  le_args : forall args, count args <= args

/-- Fetch the topmost argument, if there is one. -/
def Fetch.one : Fetch :=
  { count := fun args => min args 1
    le_args := fun args => Nat.min_le_left args 1 }

def Fetch.all : Fetch :=
  { count := id, le_args := fun args => Nat.le_refl args }

/-- A call into `expressions.c`.  `teco_expressions_push_op()` is only called
for the marker of a comma, and `teco_expressions_eval()` pops braces only on
behalf of the calls that also count them. -/
inductive Call where
  | pushInt (n : TecoInt)
  | pushNew
  | pushCalc (op : BinaryOp)
  | addDigit (radix : TecoInt) (digit : Nat)
  | setNumSign (sign : Int)
  | eval
  | popArgs (fetch : Fetch)
  | popNumCalc (imply : TecoInt)
  | discardArgs
  | braceOpen
  | braceClose
  | braceReturn (keepBraces : Nat) (fetch : Fetch)
  | clear

def Call.run : Call -> Exec Expressions Unit
  | .pushInt n => Expressions.pushInt n
  | .pushNew => Expressions.pushOp Operator.new
  | .pushCalc op => Expressions.pushCalc op
  | .addDigit radix digit => Expressions.addDigit radix digit
  | .setNumSign sign => Expressions.setNumSign sign
  | .eval => Expressions.eval false
  | .popArgs fetch => do
      let s <- get
      let _ <- Expressions.popArgs (fetch.count s.args)
      pure ()
  | .popNumCalc imply => do
      let _ <- Expressions.popNumCalc imply
      pure ()
  | .discardArgs => Expressions.discardArgs
  | .braceOpen => Expressions.braceOpen
  | .braceClose => Expressions.braceClose
  | .braceReturn keepBraces fetch => do
      let s <- get
      Expressions.braceReturn keepBraces (fetch.count s.args)
  | .clear => Expressions.clear

/-- A call returns success. -/
def Succeeds (cond : Call -> Expressions -> Prop) (s t : Expressions) : Prop :=
  exists c tokens, cond c s ∧ c.run s = .ok () t tokens

/-- The states after sequences of calls that each returned success. -/
def Reachable (cond : Call -> Expressions -> Prop) : Expressions -> Prop :=
  Relation.ReflTransGen (Succeeds cond) initial

theorem Reachable.invariant {cond : Call -> Expressions -> Prop}
    {inv : Expressions -> Prop} (hinit : inv initial)
    (hcall : forall c s, inv s -> cond c s ->
      wp c.run (fun _ t => inv t) (fun _ _ => True) (fun _ => True) s)
    {s : Expressions} (h : Reachable cond s) : inv s := by
  induction h with
  | refl => exact hinit
  | tail _ hstep ih =>
      rcases hstep with ⟨c, tokens, hcond, hrun⟩
      exact wp_ok (hcall c _ ih hcond) hrun

end Expressions
end SciTECO
