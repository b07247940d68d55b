import CoinScript.Guarded.Basic
import CoinScript.Script.Stack

/-!
# Instructions on vectors

A pile is a stack in a vector, with its top last. The instructions first look
whether there are enough items and then reach for them by indices and ranges
that they count from the length. They read numbers byte by byte into sixty-four
bits. Nothing but these checks in front keeps the operations in their domains.
-/

namespace CoinScript

open Guarded

/-! ## Numbers -/

namespace Number

variable {ε : Type}

/-- Adds the digits from index `i` on to those below; the last one is without its high bit. -/
def collectDigits (length : Nat) : (i : Nat) → Bytes → BitVec 64 → Guarded ε (BitVec 64)
  | _, [], sum => .ok sum
  | i, b :: bs, sum => do
    let last ← difference length 1
    let digit := if i = last then b.toNat % 128 else b.toNat
    let shifted ← shiftLeft (BitVec.ofNat 64 digit) (8 * i)
    collectDigits length (i + 1) bs (sum ||| shifted)

/-- The value of a byte string of at most eight bytes. -/
def guardedDecode? (bs : Bytes) : Guarded ε (Option Int) :=
  match bs.getLast? with
  | none => .ok (some 0)
  | some last =>
    if 8 < bs.length then .ok none
    else do
      let magnitude ← collectDigits bs.length 0 bs 0
      if 0x80 ≤ last then
        let n ← int64 (-magnitude.toInt)
        return some n
      else return some magnitude.toInt

/-- Whether a byte from index `i` on is not zero, the sign bit of the last byte aside. -/
def truthyFrom (length : Nat) : (i : Nat) → Bytes → Guarded ε Bool
  | _, [] => .ok false
  | i, b :: bs =>
    if b = 0 then truthyFrom length (i + 1) bs
    else do
      let last ← difference length 1
      return !(i == last && b == 0x80)

def guardedTruthy (bs : Bytes) : Guarded ε Bool := truthyFrom bs.length 0 bs

end Number

/-! ## Operands -/

/-- A stack in a vector, its bottom first and its top last. -/
abbrev Pile := List Bytes

namespace Pile

def require (v : Pile) (n : Nat) : Guarded FailureCode Unit :=
  if v.length < n then fail .stackUnderflow else .ok ()

def top (v : Pile) : Guarded FailureCode Bytes :=
  match v.getLast? with
  | none => fail .stackUnderflow
  | some item => .ok item

def pop (v : Pile) : Guarded FailureCode (Bytes × Pile) := do
  let item ← v.top
  return (item, v.dropLast)

def push (v : Pile) (item : Bytes) : Pile := v ++ [item]

/-- Takes a number of at most four bytes from the top. -/
def popNumber (v : Pile) : Guarded FailureCode (Int × Pile) := do
  let (item, v) ← v.pop
  if 4 < item.length then fail .numericOverflow
  else match ← Number.guardedDecode? item with
    | none => fail .numericOverflow
    | some n => return (n, v)

/-- Takes a depth from the top and gives the index of the item that lies so deep. -/
def popIndex (v : Pile) : Guarded FailureCode (Nat × Pile) := do
  let (n, v) ← v.popNumber
  if n < 0 ∨ v.length ≤ n.toNat then fail .stackUnderflow
  else do
    let last ← difference v.length 1
    let index ← difference last n.toNat
    return (index, v)

def verify (v : Pile) : Guarded FailureCode Pile := do
  let (item, v) ← v.pop
  if ← Number.guardedTruthy item then return v
  else fail .verify

def equal (v : Pile) : Guarded FailureCode Pile := do
  v.require 2
  let (a, v) ← v.pop
  let (b, v) ← v.pop
  return v.push (Number.ofBool (a == b))

def unary (f : Int → Int) (v : Pile) : Guarded FailureCode Pile := do
  let (a, v) ← v.popNumber
  let n ← int64 (f a)
  return v.push (Number.encode n)

def binary (f : Int → Int → Int) (v : Pile) : Guarded FailureCode Pile := do
  v.require 2
  let (b, v) ← v.popNumber
  let (a, v) ← v.popNumber
  let n ← int64 (f a b)
  return v.push (Number.encode n)

def within (v : Pile) : Guarded FailureCode Pile := do
  v.require 3
  let (upper, v) ← v.popNumber
  let (lower, v) ← v.popNumber
  let (x, v) ← v.popNumber
  return v.push (Number.ofBool (lower ≤ x ∧ x < upper))

end Pile

/-! ## Instructions -/

def StackInstruction.onPile : StackInstruction → Pile → Guarded FailureCode Pile
  | number n, v => .ok (v.push (Number.encode n))
  | skip, v => .ok v
  | stray, _ => fail .unbalancedConditional
  | verify, v => v.verify
  | abort, _ => fail .aborted
  | drop2, v => do
    v.require 2
    let length ← difference v.length 2
    return v.take length
  | dup2, v => do
    v.require 2
    let start ← difference v.length 2
    extendFrom v start v.length
  | dup3, v => do
    v.require 3
    let start ← difference v.length 3
    extendFrom v start v.length
  | over2, v => do
    v.require 4
    let start ← difference v.length 4
    let stop ← difference v.length 2
    extendFrom v start stop
  | rot2, v => do
    v.require 6
    let start ← difference v.length 6
    rotateFrom v start 2
  | swap2, v => do
    v.require 4
    let start ← difference v.length 4
    rotateFrom v start 2
  | ifDup, v => do
    let item ← v.top
    if ← Number.guardedTruthy item then return v.push item
    else return v
  | depth, v => .ok (v.push (Number.encode v.length))
  | drop, v => do
    let (_, v) ← v.pop
    return v
  | dup, v => do
    let item ← v.top
    return v.push item
  | nip, v => do
    v.require 2
    let i ← difference v.length 2
    let (_, v) ← removeAt v i
    return v
  | over1, v => do
    v.require 2
    let i ← difference v.length 2
    let item ← element v i
    return v.push item
  | pick, v => do
    let (i, v) ← v.popIndex
    let item ← element v i
    return v.push item
  | roll, v => do
    let (i, v) ← v.popIndex
    let (item, others) ← removeAt v i
    return Pile.push others item
  | rot, v => do
    v.require 3
    let start ← difference v.length 3
    rotateFrom v start 1
  | swap, v => do
    v.require 2
    let i ← difference v.length 1
    let j ← difference v.length 2
    swapAt v i j
  | tuck, v => do
    v.require 2
    let i ← difference v.length 1
    let item ← element v i
    let j ← difference v.length 2
    insertAt v j item
  | size, v => do
    let item ← v.top
    return v.push (Number.encode item.length)
  | equal, v => v.equal
  | equalVerify, v => do
    let v ← v.equal
    v.verify
  | unary operation, v => v.unary operation.apply
  | binary operation, v => v.binary operation.apply
  | numEqualVerify, v => do
    let v ← v.binary BinaryOperation.equal.apply
    v.verify
  | within, v => v.within
  | hash function, v => do
    let (item, v) ← v.pop
    return v.push (function.digest item)

/-- The new main stack and the new second stack. -/
def AltStackInstruction.onPiles :
    AltStackInstruction → Pile → Pile → Guarded FailureCode (Pile × Pile)
  | put, v, alt => do
    let (item, v) ← v.pop
    return (v, alt.push item)
  | take, v, alt =>
    match alt.getLast? with
    | none => fail .altStackUnderflow
    | some item => .ok (v.push item, alt.dropLast)

end CoinScript
