import CoinScript.Curve.Secp256k1

/-!
# SEC public keys

A point of secp256k1 is written in full, as `04` and both coordinates, or
compressed, as the parity of the second coordinate, `02` or `03`, and the
first one. Coordinates have thirty-two bytes, high byte first. The point at
infinity has no encoding. Decoding yields points of secp256k1 only.
-/

namespace CoinScript

inductive SecError where
  | infinity
  | empty
  | unsupported (marker : UInt8) (length : Nat)
  | coordinates (e : CurveError)
  | xOutOfRange
  | xNotOnCurve
deriving DecidableEq, Repr

def SecError.text : SecError → String
  | infinity => "point at infinity has no SEC encoding"
  | empty => "empty SEC encoding"
  | unsupported marker length =>
    s!"unsupported SEC prefix 0x{hexOfByte marker} with length {length}"
  | coordinates e => e.message
  | xOutOfRange => "x coordinate not below the field prime"
  | xNotOnCurve => "x coordinate is not on the curve"

def SecError.message (e : SecError) : String :=
  s!"Invalid public key encoding: {e.text}"

namespace Sec

/-- A coordinate or scalar in thirty-two bytes. -/
def coordinateBytes (n : Nat) : Bytes :=
  Bytes.ofNatBE 32 n

def encode (p : Point) (compressed : Bool) : Except SecError Bytes :=
  match p with
  | .infinity _ => .error .infinity
  | .affine x y _ =>
    if compressed then
      .ok ((if y.isEven then 0x02 else 0x03) :: coordinateBytes x.num)
    else .ok (0x04 :: coordinateBytes x.num ++ coordinateBytes y.num)

def decodeFull (body : Bytes) : Except SecError Point :=
  let x := Bytes.toNatBE (body.take 32)
  let y := Bytes.toNatBE (body.drop 32)
  (Secp256k1.point x y).mapError .coordinates

/-- The point with first coordinate `x` whose second coordinate has the given parity. -/
def decodeCompressed (even : Bool) (x : Nat) : Except SecError Point :=
  if Secp256k1.fieldPrime ≤ x then .error .xOutOfRange
  else
    let c := Secp256k1.curve
    let square := Secp256k1.residue (x * x * x + c.b.num)
    let root := square.sqrt
    if root.residue (root.num * root.num) = square then
      let y := if root.isEven = even then root else root.neg
      .ok (.affine (Secp256k1.residue x) y c)
    else .error .xNotOnCurve

def decode (data : Bytes) : Except SecError Point :=
  match data with
  | [] => .error .empty
  | marker :: body =>
    if marker = 0x04 ∧ body.length = 64 then decodeFull body
    else if (marker = 0x02 ∨ marker = 0x03) ∧ body.length = 32 then
      decodeCompressed (marker = 0x02) (Bytes.toNatBE body)
    else .error (.unsupported marker data.length)

end Sec

end CoinScript
