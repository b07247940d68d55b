import CoinScript.Script.Failure
import CoinScript.Script.Instruction
import CoinScript.Script.Number

/-!
# Instructions on the stacks

A stack is a list of byte strings with its top first. Every instruction either
gives the new stack or names the reason of its failure. An instruction with a
fixed number of operands looks first whether they are there, and then, from
the top down, whether those it takes for numbers have at most four bytes.
-/

namespace CoinScript

abbrev Stack := List Bytes

namespace Stack

/-- The number in an operand of at most four bytes. -/
def operand (item : Bytes) : Except FailureCode Int :=
  if item.length ≤ 4 then .ok (Number.value item) else .error .numericOverflow

def popNumber : Stack → Except FailureCode (Int × Stack)
  | [] => .error .stackUnderflow
  | item :: rest => do
    let n ← operand item
    return (n, rest)

/-- Demands that the top be true and takes it away. -/
def verify : Stack → Except FailureCode Stack
  | [] => .error .stackUnderflow
  | item :: rest => if Number.truthy item then .ok rest else .error .verify

def equal : Stack → Except FailureCode Stack
  | a :: b :: rest => .ok (Number.ofBool (a == b) :: rest)
  | _ => .error .stackUnderflow

/-- The depth that the top asks for, and the stack below it, which reaches that deep. -/
def popDepth (s : Stack) : Except FailureCode (Nat × Stack) := do
  let (n, rest) ← popNumber s
  if n < 0 ∨ (rest.length : Int) ≤ n then throw .stackUnderflow
  return (n.toNat, rest)

def pick (s : Stack) : Except FailureCode Stack := do
  let (depth, rest) ← popDepth s
  return rest.getD depth [] :: rest

def roll (s : Stack) : Except FailureCode Stack := do
  let (depth, rest) ← popDepth s
  return rest.getD depth [] :: rest.eraseIdx depth

def unary (f : Int → Int) : Stack → Except FailureCode Stack
  | [] => .error .stackUnderflow
  | a :: rest => do
    let x ← operand a
    return Number.encode (f x) :: rest

def binary (f : Int → Int → Int) : Stack → Except FailureCode Stack
  | b :: a :: rest => do
    let y ← operand b
    let x ← operand a
    return Number.encode (f x y) :: rest
  | _ => .error .stackUnderflow

/-- Whether the third item from the top is at least the second and below the top. -/
def within : Stack → Except FailureCode Stack
  | c :: b :: a :: rest => do
    let upper ← operand c
    let lower ← operand b
    let x ← operand a
    return Number.ofBool (lower ≤ x ∧ x < upper) :: rest
  | _ => .error .stackUnderflow

end Stack

namespace StackInstruction

def run : StackInstruction → Stack → Except FailureCode Stack
  | number n, s => .ok (Number.encode n :: s)
  | skip, s => .ok s
  | stray, _ => .error .unbalancedConditional
  | verify, s => s.verify
  | abort, _ => .error .aborted
  | drop2, _ :: _ :: s => .ok s
  | dup2, a :: b :: s => .ok (a :: b :: a :: b :: s)
  | dup3, a :: b :: c :: s => .ok (a :: b :: c :: a :: b :: c :: s)
  | over2, a :: b :: c :: d :: s => .ok (c :: d :: a :: b :: c :: d :: s)
  | rot2, a :: b :: c :: d :: e :: f :: s => .ok (e :: f :: a :: b :: c :: d :: s)
  | swap2, a :: b :: c :: d :: s => .ok (c :: d :: a :: b :: s)
  | ifDup, a :: s => .ok (if Number.truthy a then a :: a :: s else a :: s)
  | depth, s => .ok (Number.encode s.length :: s)
  | drop, _ :: s => .ok s
  | dup, a :: s => .ok (a :: a :: s)
  | nip, a :: _ :: s => .ok (a :: s)
  | over1, a :: b :: s => .ok (b :: a :: b :: s)
  | pick, s => s.pick
  | roll, s => s.roll
  | rot, a :: b :: c :: s => .ok (c :: a :: b :: s)
  | swap, a :: b :: s => .ok (b :: a :: s)
  | tuck, a :: b :: s => .ok (a :: b :: a :: s)
  | size, a :: s => .ok (Number.encode a.length :: a :: s)
  | equal, s => s.equal
  | equalVerify, s => s.equal >>= Stack.verify
  | unary operation, s => s.unary operation.apply
  | binary operation, s => s.binary operation.apply
  | numEqualVerify, s => s.binary BinaryOperation.equal.apply >>= Stack.verify
  | within, s => s.within
  | hash function, a :: s => .ok (function.digest a :: s)
  | _, _ => .error .stackUnderflow

end StackInstruction

/-- The new main stack and the new second stack. -/
def AltStackInstruction.run : AltStackInstruction → Stack → Stack → Except FailureCode (Stack × Stack)
  | put, a :: s, alt => .ok (s, a :: alt)
  | put, [], _ => .error .stackUnderflow
  | take, s, a :: alt => .ok (a :: s, alt)
  | take, _, [] => .error .altStackUnderflow

end CoinScript
