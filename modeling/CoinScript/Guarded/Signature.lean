import CoinScript.Guarded.Stack
import CoinScript.Script.SignatureCheck

/-!
# Keys and signature checks on vectors

Keys are cut out of their bytes by ranges, and the equation of the curve is
computed with the operators of the field, which demand operands of one field.
Differences inside of an operator are never negative, because an element has
its bound with it.

Verification has a case for keys that the arithmetic of the curve refuses. It
is a crash here, because what was read as a key is meant to be a point.
-/

namespace CoinScript

open Guarded

/-! ## Keys -/

/-- Whether the coordinates are in the field of the curve and satisfy its equation. -/
def Curve.guardedContains {ε : Type} (c : Curve) (x y : FieldElement) : Guarded ε Bool :=
  if x.modulus ≠ c.modulus ∨ y.modulus ≠ c.modulus then .ok false
  else do
    let left ← operate (y.mul y)
    let square ← operate (x.mul x)
    let cube ← operate (square.mul x)
    let linear ← operate (c.a.mul x)
    let others ← operate (linear.add c.b)
    let right ← operate (cube.add others)
    return left == right

def Point.guardedOfCoordinates (x y : FieldElement) (c : Curve) : Guarded CurveError Point := do
  if ← c.guardedContains x y then return .affine x y c
  else fail (.notOnCurve x y)

namespace Secp256k1

def guardedCoordinate (n : Nat) : Guarded CurveError FieldElement :=
  ofResult ((coordinate n).mapError .field)

def guardedPoint (x y : Nat) : Guarded CurveError Point := do
  let x ← guardedCoordinate x
  let y ← guardedCoordinate y
  Point.guardedOfCoordinates x y curve

end Secp256k1

namespace Sec

def guardedDecodeFull (data : Bytes) : Guarded SecError Point := do
  let x ← slice data 1 33
  let y ← slice data 33 data.length
  mapFailure .coordinates (Secp256k1.guardedPoint (Bytes.toNatBE x) (Bytes.toNatBE y))

def guardedDecodeCompressed (even : Bool) (data : Bytes) : Guarded SecError Point := do
  let digits ← slice data 1 data.length
  let n := Bytes.toNatBE digits
  if Secp256k1.fieldPrime ≤ n then fail .xOutOfRange
  else do
    let x ← mapFailure .coordinates (Secp256k1.guardedCoordinate n)
    let square ← operate (x.mul x)
    let cube ← operate (square.mul x)
    let right ← operate (cube.add Secp256k1.curve.b)
    let root := right.sqrt
    let squared ← operate (root.mul root)
    if squared = right then
      let y := if root.isEven = even then root else root.neg
      mapFailure .coordinates (Point.guardedOfCoordinates x y Secp256k1.curve)
    else fail .xNotOnCurve

def guardedDecode (data : Bytes) : Guarded SecError Point :=
  match data.head? with
  | none => fail .empty
  | some marker =>
    if marker = 0x04 ∧ data.length = 65 then guardedDecodeFull data
    else if (marker = 0x02 ∨ marker = 0x03) ∧ data.length = 33 then
      guardedDecodeCompressed (marker = 0x02) data
    else fail (.unsupported marker data.length)

end Sec

/-! ## Checks -/

namespace SignatureCheck

def guardedReadKey (item : Bytes) : Guarded FailureCode Point :=
  mapFailure (fun _ => .badEncoding) (Sec.guardedDecode item)

def guardedReadSignature (item : Bytes) : Guarded FailureCode Signature :=
  match item.getLast? with
  | none => fail .badEncoding
  | some _ => ofResult ((Der.decode item.dropLast).mapError fun _ => .badEncoding)

def guardedAccepts (z : Nat) (p : Point) (sig : Signature) : Guarded FailureCode Bool :=
  match p.verify sig z with
  | .ok .accepted => .ok true
  | .ok .refused => .ok false
  | .ok (.badKey _) => crash (.dead .refusedKey)
  | .error m => crash (.misuse m)

def singleOnPile (z : Nat) (v : Pile) : Guarded FailureCode Pile := do
  v.require 2
  let (key, v) ← v.pop
  let (sig, v) ← v.pop
  let p ← guardedReadKey key
  let sig ← guardedReadSignature sig
  let accepted ← guardedAccepts z p sig
  return v.push (Number.ofBool accepted)

/-- A count of at most `limit` on top and that many items below it, deepest first. -/
def takeCountedOnPile (limit : Nat) (v : Pile) : Guarded FailureCode (List Bytes × Pile) := do
  let (count, v) ← v.popNumber
  if count < 0 ∨ (limit : Int) < count then fail .keyCount
  else do
    v.require count.toNat
    let start ← difference v.length count.toNat
    let (below, items) ← splitAt v start
    return (items, below)

/-- The keys after the first one that the signature verifies against. -/
def guardedKeysAfter? (z : Nat) (sig : Signature) :
    List Point → Guarded FailureCode (Option (List Point))
  | [] => .ok none
  | p :: keys => do
    if ← guardedAccepts z p sig then return some keys
    else guardedKeysAfter? z sig keys

def guardedMatchInOrder (z : Nat) : List Signature → List Point → Guarded FailureCode Bool
  | [], _ => .ok true
  | sig :: sigs, keys => do
    match ← guardedKeysAfter? z sig keys with
    | none => return false
    | some keys => guardedMatchInOrder z sigs keys

def multipleOnPile (z : Nat) (v : Pile) : Guarded FailureCode Pile := do
  let (keys, v) ← takeCountedOnPile maxKeys v
  let (sigs, v) ← takeCountedOnPile keys.length v
  let (_, v) ← v.pop
  let keys ← keys.mapM guardedReadKey
  let sigs ← sigs.mapM guardedReadSignature
  let matched ← guardedMatchInOrder z sigs keys
  return v.push (Number.ofBool matched)

end SignatureCheck

def SignatureInstruction.onPile (z : Nat) (v : Pile) :
    SignatureInstruction → Guarded FailureCode Pile
  | .single demand => do
    let v ← SignatureCheck.singleOnPile z v
    if demand then v.verify else return v
  | .multiple demand => do
    let v ← SignatureCheck.multipleOnPile z v
    if demand then v.verify else return v

end CoinScript
