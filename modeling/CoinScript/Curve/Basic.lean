import CoinScript.Field

/-!
# Short Weierstrass curves and their points

A curve is given by the coefficients of `y² = x³ + a x + b`, which belong to
one field. A point is the point at infinity or a pair of coordinates together
with the curve it is meant to lie on. The type does not ask the coordinates to
satisfy the equation, nor to belong to the field of the curve;
`Point.ofCoordinates` is the constructor that checks both.

Not covered: curves with coefficients of two fields. `Curve.ofCoefficients`
refuses them, and a pair that is put together without it has no counterpart in
the type. What is proved of all points is proved of any coordinates, on the
curve or not and in its field or not, next to a curve over one field.
-/

namespace CoinScript

structure Curve where
  a : FieldElement
  b : FieldElement
  same_modulus : a.modulus = b.modulus
deriving DecidableEq, Repr

inductive Point where
  | infinity (curve : Curve)
  | affine (x y : FieldElement) (curve : Curve)
deriving DecidableEq, Repr

namespace Curve

/-- The modulus of the field of the coefficients. -/
def modulus (c : Curve) : Nat := c.a.modulus

/-- Whether the coordinates are in the field of the curve and satisfy its equation. -/
def contains (c : Curve) (x y : FieldElement) : Bool :=
  x.modulus == c.modulus && y.modulus == c.modulus &&
    y.num * y.num % c.modulus ==
      (x.num * x.num * x.num + (c.a.num * x.num + c.b.num)) % c.modulus

def describe (c : Curve) : String :=
  s!"Curve(a={c.a.num}, b={c.b.num}, p={c.modulus})"

end Curve

/-- Why curve arithmetic refuses its data. -/
inductive CurveError where
  | field (e : FieldError)
  | coefficientFields
  | differentCurves (left right : Curve)
  | notOnCurve (x y : FieldElement)
deriving DecidableEq, Repr

def CurveError.message : CurveError → String
  | field e => e.message
  | coefficientFields =>
    "Points are not on the same curve: curve coefficients belong to different fields"
  | differentCurves left right =>
    s!"Points are not on the same curve: {left.describe} and {right.describe}"
  | notOnCurve x y => s!"Point is not on the curve: ({x.num}, {y.num})"

instance : MonadLift (Except FieldError) (Except CurveError) where
  monadLift := Except.mapError .field

instance : MonadLift (Except FieldError) (Except (Fault CurveError)) where
  monadLift := Except.mapError fun e => .error (.field e)

def Curve.ofCoefficients (a b : FieldElement) : Except CurveError Curve :=
  if same : a.modulus = b.modulus then .ok ⟨a, b, same⟩ else .error .coefficientFields

namespace Point

def ofCoordinates (x y : FieldElement) (c : Curve) : Except CurveError Point :=
  if c.contains x y then .ok (.affine x y c) else .error (.notOnCurve x y)

def curve : Point → Curve
  | infinity c => c
  | affine _ _ c => c

def isInfinity : Point → Bool
  | infinity _ => true
  | affine _ _ _ => false

def describe : Point → String
  | infinity c => s!"Point(infinity)_{c.describe}"
  | affine x y c => s!"Point({x.text}, {y.text})_{c.describe}"

end Point

end CoinScript
