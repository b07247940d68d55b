import CoinScript.Digest.Commitment

/-!
# Instructions

The executable opcodes by the part of the machine that they touch: the main
stack alone, the commands still to come, the second stack, or the number that
signatures sign. Opcodes that differ in a single operation on numbers or in a
hash function share one instruction.
-/

namespace CoinScript

/-- Operations on one number. -/
inductive UnaryOperation where
  | increment
  | decrement
  | negate
  | abs
  | not
  | nonzero
deriving DecidableEq, Repr

/-- Operations on two numbers, of which the second lies on top. -/
inductive BinaryOperation where
  | add
  | sub
  | both
  | either
  | equal
  | notEqual
  | less
  | greater
  | lessOrEqual
  | greaterOrEqual
  | min
  | max
deriving DecidableEq, Repr

/-- Instructions on the main stack alone. -/
inductive StackInstruction where
  | number (n : Int)
  | skip
  | stray
  | verify
  | abort
  | drop2
  | dup2
  | dup3
  | over2
  | rot2
  | swap2
  | ifDup
  | depth
  | drop
  | dup
  | nip
  | over1
  | pick
  | roll
  | rot
  | swap
  | tuck
  | size
  | equal
  | equalVerify
  | unary (operation : UnaryOperation)
  | binary (operation : BinaryOperation)
  | numEqualVerify
  | within
  | hash (function : Digest.HashFunction)
deriving DecidableEq, Repr

/-- Moves between the main stack and the second one. -/
inductive AltStackInstruction where
  | put
  | take
deriving DecidableEq, Repr

/-- Signature checks, which leave a truth value or demand that it be true. -/
inductive SignatureInstruction where
  | single (demand : Bool)
  | multiple (demand : Bool)
deriving DecidableEq, Repr

inductive Instruction where
  | stack (i : StackInstruction)
  | conditional (negated : Bool)
  | altStack (i : AltStackInstruction)
  | signature (i : SignatureInstruction)
deriving DecidableEq, Repr

namespace UnaryOperation

def apply : UnaryOperation → Int → Int
  | increment, a => a + 1
  | decrement, a => a - 1
  | negate, a => -a
  | abs, a => a.natAbs
  | not, a => if a = 0 then 1 else 0
  | nonzero, a => if a ≠ 0 then 1 else 0

end UnaryOperation

namespace BinaryOperation

def apply : BinaryOperation → Int → Int → Int
  | add, a, b => a + b
  | sub, a, b => a - b
  | both, a, b => if a ≠ 0 ∧ b ≠ 0 then 1 else 0
  | either, a, b => if a ≠ 0 ∨ b ≠ 0 then 1 else 0
  | equal, a, b => if a = b then 1 else 0
  | notEqual, a, b => if a ≠ b then 1 else 0
  | less, a, b => if a < b then 1 else 0
  | greater, a, b => if b < a then 1 else 0
  | lessOrEqual, a, b => if a ≤ b then 1 else 0
  | greaterOrEqual, a, b => if b ≤ a then 1 else 0
  | min, a, b => if a ≤ b then a else b
  | max, a, b => if a ≤ b then b else a

end BinaryOperation

end CoinScript
