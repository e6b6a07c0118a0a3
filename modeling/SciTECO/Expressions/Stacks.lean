import SciTECO.Error

/-!
# The expression stacks

The number stack and the operator stack of `expressions.c`, with the sign that
waits for the next number and the count of open braces.  Both stacks are lists
with the top at the head.

The operator stack holds a marker `TECO_OP_NUMBER` for every argument, so that
an argument can be told from the left operand of an operator.
-/

namespace SciTECO

/-- `teco_int_t` in its default width. -/
abbrev TecoInt : Type := BitVec 64

/-- The real operators of `teco_operator_t`. -/
inductive BinaryOp where
  | pow
  | mod
  | div
  | mul
  | sub
  | add
  | and
  | xor
  | or
deriving DecidableEq, Repr

/-- `teco_operator_t` without `TECO_OP_NIL`, which is never on the stack. -/
inductive Operator where
  | new
  | brace
  | number
  | real (op : BinaryOp)
deriving DecidableEq, Repr

namespace BinaryOp

def value : BinaryOp -> Nat
  | pow => 0x60
  | mod => 0x50
  | div => 0x51
  | mul => 0x52
  | sub => 0x40
  | add => 0x41
  | and => 0x30
  | xor => 0x20
  | or => 0x10

end BinaryOp

namespace Operator

def value : Operator -> Nat
  | new => 0x01
  | brace => 0x02
  | number => 0x03
  | real op => op.value

/-- Get operator precedence. -/
def precedence (op : Operator) : Nat := op.value >>> 4

/-- What `teco_expressions_first_op()` skips. -/
def isArgument : Operator -> Bool
  | new => true
  | number => true
  | brace => false
  | real _ => false

@[simp] theorem isArgument_new : new.isArgument = true := rfl
@[simp] theorem isArgument_number : number.isArgument = true := rfl
@[simp] theorem isArgument_brace : brace.isArgument = false := rfl
@[simp] theorem isArgument_real (op : BinaryOp) :
    (real op).isArgument = false := rfl

theorem brace_precedence_lt (op : BinaryOp) :
    brace.precedence < (real op).precedence := by
  cases op <;> decide

end Operator

/-- The state of `expressions.c`. -/
structure Expressions where
  numbers : List TecoInt
  operators : List Operator
  numSign : Int
  braceLevel : Nat
deriving DecidableEq, Repr

namespace Expressions

open Undoable

def initial : Expressions :=
  { numbers := [], operators := [], numSign := 1, braceLevel := 0 }

/-!
## Peeking
-/

/-- Index 0 is the top.  Reading outside of the array is `none`. -/
def peekNum (s : Expressions) (index : Nat) : Option TecoInt :=
  s.numbers[index]?

def peekOp (s : Expressions) (index : Nat) : Option Operator :=
  s.operators[index]?

/-- Get number of numeric arguments on the top of the stack. -/
def args (s : Expressions) : Nat :=
  (s.operators.takeWhile (fun op => op == Operator.number)).length

/-- The index of the first operator, where the source returns -1 for `none`. -/
def firstOp (s : Expressions) : Option Nat :=
  s.operators.findIdx? (fun op => !op.isArgument)

/-!
## Undo tokens

The tokens address the arrays from the bottom, as the source does.
-/

/-- `insert_val__teco_numbers()`. -/
def insertNum (index : Nat) (n : TecoInt) (s : Expressions) : Expressions :=
  { s with numbers := s.numbers.insertIdx (s.numbers.length - index) n }

/-- `remove_index__teco_numbers()`. -/
def removeNum (index : Nat) (s : Expressions) : Expressions :=
  { s with numbers := s.numbers.eraseIdx (s.numbers.length - 1 - index) }

/-- `insert_val__teco_operators()`. -/
def insertOp (index : Nat) (op : Operator) (s : Expressions) : Expressions :=
  { s with
    operators := s.operators.insertIdx (s.operators.length - index) op }

/-- `remove_index__teco_operators()`. -/
def removeOp (index : Nat) (s : Expressions) : Expressions :=
  { s with
    operators := s.operators.eraseIdx (s.operators.length - 1 - index) }

def setNumSign (sign : Int) : Exec Expressions Unit := do
  let s <- get
  emit (fun t => { t with numSign := s.numSign })
  modify (fun t => { t with numSign := sign })

/-- `teco_undo_guint(teco_brace_level)`. -/
def undoBraceLevel : Exec Expressions Unit := do
  let s <- get
  emit (fun t => { t with braceLevel := s.braceLevel })

def setBraceLevel (level : Nat) : Exec Expressions Unit :=
  modify (fun t => { t with braceLevel := level })

/-!
## Pushing and popping
-/

def pushOp (op : Operator) : Exec Expressions Unit := do
  modify (fun s => { s with operators := op :: s.operators })
  let s <- get
  emit (removeOp (s.operators.length - 1))

/-- `TECO_OP_NIL`, which stands for an empty stack, is `none`. -/
def popOp (index : Nat) : Exec Expressions (Option Operator) := do
  let s <- get
  if s.operators.length > 0 then
    match s.peekOp index with
    | none => fault Fault.outOfBounds
    | some op => do
        emit (insertOp (s.operators.length - 1 - index) op)
        modify (fun t => { t with operators := t.operators.eraseIdx index })
        pure (some op)
  else
    pure none

/-- The loop that removes the `TECO_OP_NEW` markers on the top. -/
def popNewLoop : Nat -> Exec Expressions Unit
  | 0 => fault Fault.outOfFuel
  | fuel + 1 => do
      let s <- get
      if s.peekOp 0 = some Operator.new then do
        let _ <- popOp 0
        popNewLoop fuel
      else
        pure ()

def popNew : Exec Expressions Unit := do
  let s <- get
  popNewLoop (s.operators.length + 1)

def pushInt (number : TecoInt) : Exec Expressions Unit := do
  popNew
  pushOp Operator.number
  let s <- get
  let number <-
    if s.numSign < 0 then do
      setNumSign 1
      pure (-number)
    else
      pure number
  modify (fun t => { t with numbers := number :: t.numbers })
  let s <- get
  emit (removeNum (s.numbers.length - 1))

/-- Pop a value from the number stack. -/
def popNum (index : Nat) : Exec Expressions TecoInt := do
  let op <- popOp 0
  if op = some Operator.number then do
    let s <- get
    if s.numbers.length > 0 then
      match s.peekNum index with
      | none => fault Fault.outOfBounds
      | some n => do
          emit (insertNum (s.numbers.length - 1 - index) n)
          modify (fun t => { t with numbers := t.numbers.eraseIdx index })
          pure n
    else
      pure 0
  else
    fault Fault.assertion

/-!
## Operators
-/

/-- The loop of `TECO_OP_POW` for a positive exponent, by repeated squaring. -/
def powLoop : Nat -> TecoInt -> TecoInt -> TecoInt -> TecoInt
  | 0, _, _, result => result
  | fuel + 1, vleft, vright, result =>
      let result := if vright &&& 1 ≠ 0 then result * vleft else result
      let vright := vright.sshiftRight 1
      if vright = 0 then result else powLoop fuel (vleft * vleft) vright result

def division (message : String) (operation : TecoInt -> TecoInt -> TecoInt)
    (vleft vright : TecoInt) : Except (Stop TecoError Fault) TecoInt :=
  if vright = 0 then
    .error (.error (TecoError.failed message))
  else if vleft = BitVec.intMin 64 ∧ vright = -1 then
    .error (.fault Fault.arithmeticTrap)
  else
    .ok (operation vleft vright)

/-- The `switch` of `teco_expressions_calc()`. -/
def applyOp : BinaryOp -> TecoInt -> TecoInt ->
    Except (Stop TecoError Fault) TecoInt
  | .pow, vleft, vright =>
      if vright = 0 then
        .ok (if vleft.slt 0 then -1 else 1)
      else if vright.slt 0 then
        if vleft = 0 then
          .error (.error
            (TecoError.failed "Negative power of 0 is not defined"))
        else
          .ok (if vleft = 1 ∨ vleft = -1 then vleft else 0)
      else
        .ok (powLoop 64 vleft vright 1)
  | .mul, vleft, vright => .ok (vleft * vright)
  | .div, vleft, vright =>
      division "Division by zero" BitVec.sdiv vleft vright
  | .mod, vleft, vright =>
      division "Remainder of division by zero" BitVec.srem vleft vright
  | .add, vleft, vright => .ok (vleft + vright)
  | .sub, vleft, vright => .ok (vleft - vright)
  | .and, vleft, vright => .ok (vleft &&& vright)
  | .xor, vleft, vright => .ok (vleft ^^^ vright)
  | .or, vleft, vright => .ok (vleft ||| vright)

/-- `teco_expressions_calc()`. -/
def calcTop : Exec Expressions Unit := do
  let s <- get
  if s.peekOp 0 = some Operator.number then do
    let vright <- popNum 0
    let op <- popOp 0
    let s <- get
    if s.peekOp 0 = some Operator.number then do
      let vleft <- popNum 0
      match op with
      | some (Operator.real op) => do
          let result <- ofExcept (applyOp op vleft vright)
          pushInt result
      | _ => fault Fault.assertNotReached
    else
      throw (TecoError.failed "Missing left operand")
  else
    throw (TecoError.failed "Missing right operand")

def pushCalcLoop (op : BinaryOp) : Nat -> Exec Expressions Unit
  | 0 => fault Fault.outOfFuel
  | fuel + 1 => do
      let s <- get
      match s.firstOp with
      | none => pure ()
      | some first =>
          match s.peekOp first with
          | none => fault Fault.outOfBounds
          | some top =>
              -- calculate if op has lower precedence than op on stack
              if (Operator.real op).precedence > top.precedence then
                pure ()
              else do
                calcTop
                pushCalcLoop op fuel

def pushCalc (op : BinaryOp) : Exec Expressions Unit := do
  let s <- get
  pushCalcLoop op (s.operators.length + 1)
  pushOp (Operator.real op)

def evalLoop (popBrace : Bool) : Nat -> Exec Expressions Unit
  | 0 => fault Fault.outOfFuel
  | fuel + 1 => do
      let s <- get
      match s.firstOp with
      | none => pure ()
      | some n =>
          if s.peekOp n = some Operator.brace then
            if popBrace then do
              let _ <- popOp n
              pure ()
            else
              pure ()
          else if n < 1 then
            pure ()
          else do
            calcTop
            evalLoop popBrace fuel

/-- Resolve all operations on the top of the stack. -/
def eval (popBrace : Bool) : Exec Expressions Unit := do
  let s <- get
  evalLoop popBrace (s.operators.length + 1)

/-!
## Arguments
-/

/-- Pop an argument from the number stack, or imply a value. -/
def popNumCalc (imply : TecoInt) : Exec Expressions TecoInt := do
  eval false
  let s <- get
  if s.numSign < 0 then
    setNumSign 1
  else
    pure ()
  let s <- get
  if s.args > 0 then
    popNum 0
  else
    pure imply

/-- Add a digit to the number that is being typed.  The radix is the value of
the register `^R`. -/
def addDigit (radix : TecoInt) (digit : Nat) : Exec Expressions Unit := do
  let s <- get
  let n <- if s.args > 0 then popNum 0 else pure 0
  pushInt (n * radix +
    (if n.slt 0 then -1 else 1) * BitVec.ofInt 64 ((digit : Int) - 48))

def discardArgsLoop : Nat -> Exec Expressions Unit
  | 0 => pure ()
  | i + 1 => do
      let _ <- popNumCalc 0
      discardArgsLoop i

def discardArgs : Exec Expressions Unit := do
  eval false
  let s <- get
  discardArgsLoop s.args

/-- Pop some arguments, the lowest one first in the result. -/
def popArgs : Nat -> Exec Expressions (List TecoInt)
  | 0 => pure []
  | i + 1 => do
      let n <- popNum 0
      let rest <- popArgs i
      pure (rest ++ [n])

def pushArgs : List TecoInt -> Exec Expressions Unit
  | [] => pure ()
  | n :: rest => do
      pushInt n
      pushArgs rest

/-!
## Braces
-/

def braceOpen : Exec Expressions Unit := do
  popNew
  pushOp Operator.brace
  undoBraceLevel
  let s <- get
  setBraceLevel (s.braceLevel + 1)

/-- The loop of `teco_expressions_brace_return()`, which runs once for every
brace level above the kept ones. -/
def braceReturnLoop : Nat -> Exec Expressions Unit
  | 0 => pure ()
  | levels + 1 => do
      discardArgs
      eval true
      let s <- get
      setBraceLevel (s.braceLevel - 1)
      braceReturnLoop levels

def braceReturn (keepBraces args : Nat) : Exec Expressions Unit := do
  let returnNumbers <- popArgs args
  undoBraceLevel
  let s <- get
  braceReturnLoop (s.braceLevel - keepBraces)
  pushArgs returnNumbers

def braceClose : Exec Expressions Unit := do
  let s <- get
  if s.braceLevel = 0 then
    throw (TecoError.failed "Missing opening brace")
  else do
    undoBraceLevel
    setBraceLevel (s.braceLevel - 1)
    eval true

def clear : Exec Expressions Unit :=
  modify (fun s => { s with numbers := [], operators := [], braceLevel := 0 })

end Expressions

end SciTECO
