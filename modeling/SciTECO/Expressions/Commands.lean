import SciTECO.Expressions.Rules

/-!
# Arithmetic commands

The commands of `core-commands.c` by which expressions are typed.
-/

namespace SciTECO
namespace Expressions

open Undoable

def startMul : Exec Expressions Unit := pushCalc BinaryOp.mul

def startDiv : Exec Expressions Unit := pushCalc BinaryOp.div

def startPlus : Exec Expressions Unit := pushCalc BinaryOp.add

/-- Without arguments this is the sign of the next number. -/
def startMinus : Exec Expressions Unit := do
  let s <- get
  if s.args = 0 then
    setNumSign (-s.numSign)
  else
    pushCalc BinaryOp.sub

def startAnd : Exec Expressions Unit := pushCalc BinaryOp.and

def startOr : Exec Expressions Unit := pushCalc BinaryOp.or

def controlPow : Exec Expressions Unit := pushCalc BinaryOp.pow

def controlMod : Exec Expressions Unit := pushCalc BinaryOp.mod

def controlXor : Exec Expressions Unit := pushCalc BinaryOp.xor

def startBraceOpen : Exec Expressions Unit := do
  let s <- get
  if s.numSign < 0 then do
    setNumSign 1
    eval false
    pushInt (-1)
    pushCalc BinaryOp.mul
    braceOpen
  else
    braceOpen

def startBraceClose : Exec Expressions Unit := braceClose

def startComma : Exec Expressions Unit := do
  eval false
  pushOp Operator.new

end Expressions
end SciTECO
