import CoinScript.Curve.Group

/-!
# The curve secp256k1

The curve `y² = x³ + 7` over the field of `2^256 - 2^32 - 977` elements, with
its generator and the order of the generator. Factors of points are reduced
modulo that order before they are used.
-/

namespace CoinScript.Secp256k1

def fieldPrime : Nat :=
  0xfffffffffffffffffffffffffffffffffffffffffffffffffffffffefffffc2f

/-- The order of the generator. -/
def order : Nat :=
  0xfffffffffffffffffffffffffffffffebaaedce6af48a03bbfd25e8cd0364141

/-- The residue of `n` in the coordinate field. -/
def residue (n : Nat) : FieldElement where
  num := n % fieldPrime
  modulus := fieldPrime
  two_le := by decide
  num_lt := Nat.mod_lt _ (by decide)

def curve : Curve where
  a := residue 0
  b := residue 7
  same_modulus := rfl

def generator : Point :=
  .affine
    (residue 0x79be667ef9dcbbac55a06295ce870b07029bfcdb2dce28d959f2815b16f81798)
    (residue 0x483ada7726a3c4655da4fbfc0e1108a8fd17b448a68554199c47d08ffb10d4b8)
    curve

/-- The number as a coordinate. -/
def coordinate (n : Nat) : Except FieldError FieldElement :=
  FieldElement.ofNat n fieldPrime

/-- The point with the given coordinates. -/
def point (x y : Nat) : Except CurveError Point := do
  let x ← coordinate x
  let y ← coordinate y
  Point.ofCoordinates x y curve

/-- The multiple `k p`, with `k` reduced modulo the order. -/
def scalarMul (p : Point) (k : Nat) : Except (Fault CurveError) Point :=
  p.scalarMul (k % order)

/-- The public point of a secret. -/
def publicPoint (secret : Nat) : Except (Fault CurveError) Point :=
  scalarMul generator secret

end CoinScript.Secp256k1
