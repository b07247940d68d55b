import CoinScript.Field

/-!
# Operations with a domain

An index and a range of a list, the difference of two sizes, an operation on
numbers of sixty-four bits and an operator of a field are defined for some
arguments only. A guarded computation crashes where one of them leaves its
domain, and this is kept apart from the failures that it reports by itself.
It also crashes in the cases that are written down for completeness and that
nothing is meant to reach.

An operator of the field computes a number that is put next to the modulus of
its operands. Here the number is the result as it is computed: it has no bound
with it, and a difference that would be negative is a crash.
-/

namespace CoinScript

/-- A case of an evaluation that is not meant to be reached. -/
inductive DeadCase where
  /-- The pending commands that announced a redemption are not its template. -/
  | template
  /-- The script to redeem is not on the stack. -/
  | nothingToRedeem
  /-- The arithmetic of the curve refuses a key that was read. -/
  | refusedKey
deriving DecidableEq, Repr

inductive Crash where
  | index (i length : Nat)
  | range (start stop length : Nat)
  | difference (a b : Nat)
  | overflow (n : Int)
  | shift (distance : Nat)
  | misuse (m : Misuse)
  | dead (case : DeadCase)
deriving DecidableEq, Repr

/-- A computation ends early with a failure of its own or with a crash. -/
inductive Halt (ε : Type) where
  | failure (e : ε)
  | crash (c : Crash)
deriving DecidableEq, Repr

abbrev Guarded (ε : Type) := Except (Halt ε)

namespace Guarded

variable {ε δ α : Type}

def fail (e : ε) : Guarded ε α := .error (.failure e)

def crash (c : Crash) : Guarded ε α := .error (.crash c)

/-- A computation that never crashes. -/
def ofResult (x : Except ε α) : Guarded ε α := x.mapError .failure

/-- A computation that crashes by the misuse of an operator only. -/
def ofFault : Except (Fault ε) α → Guarded ε α
  | .ok a => .ok a
  | .error (.error e) => fail e
  | .error (.misuse m) => crash (.misuse m)

/-- Applies an operator of the field. -/
def operate : Except Misuse α → Guarded ε α
  | .ok a => .ok a
  | .error m => crash (.misuse m)

/-- Changes the failure, if there is one. -/
def mapFailure (f : ε → δ) : Guarded ε α → Guarded δ α
  | .ok a => .ok a
  | .error (.failure e) => fail (f e)
  | .error (.crash c) => crash c

/-! ## Numbers -/

/-- The difference of two sizes. -/
def difference (a b : Nat) : Guarded ε Nat :=
  if b ≤ a then .ok (a - b) else crash (.difference a b)

/-- The result of an operation on signed numbers of sixty-four bits. -/
def int64 (n : Int) : Guarded ε Int :=
  if -0x8000000000000000 ≤ n ∧ n < 0x8000000000000000 then .ok n else crash (.overflow n)

/-- Bits that are shifted out are lost, but the distance has to be below the width. -/
def shiftLeft (x : BitVec 64) (distance : Nat) : Guarded ε (BitVec 64) :=
  if distance < 64 then .ok (x <<< distance) else crash (.shift distance)

/-! ## Lists -/

def element (xs : List α) (i : Nat) : Guarded ε α :=
  if h : i < xs.length then .ok xs[i] else crash (.index i xs.length)

/-- The elements from `start` on, up to `stop`, if there are so many. -/
def range? (xs : List α) (start stop : Nat) : Option (List α) :=
  if start ≤ stop ∧ stop ≤ xs.length then some ((xs.take stop).drop start) else none

/-- The elements from `start` on, up to `stop`. -/
def slice (xs : List α) (start stop : Nat) : Guarded ε (List α) :=
  match range? xs start stop with
  | some part => .ok part
  | none => crash (.range start stop xs.length)

/-- Appends a copy of a range. -/
def extendFrom (xs : List α) (start stop : Nat) : Guarded ε (List α) := do
  let part ← slice xs start stop
  return xs ++ part

/-- Moves the first `count` elements of those from `start` on behind the others. -/
def rotateFrom (xs : List α) (start count : Nat) : Guarded ε (List α) := do
  let part ← slice xs start xs.length
  if count ≤ part.length then return xs.take start ++ (part.drop count ++ part.take count)
  else crash (.index count part.length)

/-- Takes out the element at an index. -/
def removeAt (xs : List α) (i : Nat) : Guarded ε (α × List α) := do
  let a ← element xs i
  return (a, xs.take i ++ xs.drop (i + 1))

/-- Puts an element in front of the one at an index, or at the end. -/
def insertAt (xs : List α) (i : Nat) (a : α) : Guarded ε (List α) :=
  if i ≤ xs.length then .ok (xs.take i ++ a :: xs.drop i) else crash (.index i xs.length)

def swapAt (xs : List α) (i j : Nat) : Guarded ε (List α) := do
  let a ← element xs i
  let b ← element xs j
  return (xs.set i b).set j a

/-- The elements before an index and those from it on. -/
def splitAt (xs : List α) (i : Nat) : Guarded ε (List α × List α) :=
  if i ≤ xs.length then .ok (xs.take i, xs.drop i) else crash (.index i xs.length)

end Guarded

/-! ## Field operators -/

namespace FieldElement

open Guarded

variable {ε : Type}

/-- Computes with the modulus and the numbers of two elements of one field. -/
def guardedCombine (operator : FieldOperator) (f : Nat → Nat → Nat → Guarded ε Nat)
    (a b : FieldElement) : Guarded ε Nat :=
  if a.modulus = b.modulus then f a.modulus a.num b.num
  else crash (.misuse (.differentFields operator a.modulus b.modulus))

def guardedAdd : FieldElement → FieldElement → Guarded ε Nat :=
  guardedCombine .add fun m x y => .ok ((x + y) % m)

def guardedSub : FieldElement → FieldElement → Guarded ε Nat :=
  guardedCombine .subtract fun m x y => do
    let raised ← difference (x + m) y
    return raised % m

def guardedMul : FieldElement → FieldElement → Guarded ε Nat :=
  guardedCombine .multiply fun m x y => .ok (x * y % m)

/-- The opposite is not reduced: that of zero is zero, any other is less than the modulus. -/
def guardedNeg (a : FieldElement) : Guarded ε Nat :=
  if a.isZero then .ok a.num else difference a.modulus a.num

end FieldElement

end CoinScript
