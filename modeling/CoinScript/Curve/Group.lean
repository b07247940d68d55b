import CoinScript.Curve.Basic

/-!
# Chord and tangent

Points are added along the line through them, which is the tangent when they
coincide. A vertical line gives the point at infinity. Multiples are computed
by doubling and adding over the binary digits of the factor, low digit first.

Every coordinate carries its own modulus, so an addition can fail although
both points name the same curve: the operators meet elements of different
fields, or a slope has no denominator because the modulus is even.
-/

namespace CoinScript.Point

/-- The reflection across the horizontal axis. -/
def negate : Point → Point
  | infinity c => infinity c
  | affine x y c => affine x y.neg c

/-- The slope of the line through two points that is not vertical. -/
def slope (c : Curve) (x₁ y₁ x₂ y₂ : FieldElement) : Except (Fault CurveError) FieldElement := do
  if x₁ = x₂ then
    let square ← x₁.mul x₁
    let tripled ← (c.a.residue 3).mul square
    let rise ← tripled.add c.a
    let run ← (c.a.residue 2).mul y₁
    rise.checkedDiv run
  else
    let rise ← y₂.sub y₁
    let run ← x₂.sub x₁
    rise.checkedDiv run

/-- The third intersection of a line with the curve, reflected. -/
def alongLine (c : Curve) (m x₁ y₁ x₂ : FieldElement) : Except (Fault CurveError) Point := do
  let square ← m.mul m
  let reduced ← square.sub x₁
  let x₃ ← reduced.sub x₂
  let back ← x₁.sub x₃
  let rise ← m.mul back
  let y₃ ← rise.sub y₁
  return affine x₃ y₃ c

def add (p q : Point) : Except (Fault CurveError) Point :=
  if p.curve = q.curve then
    match p, q with
    | infinity _, _ => .ok q
    | affine _ _ _, infinity _ => .ok p
    | affine x₁ y₁ c, affine x₂ y₂ _ =>
      if x₁ = x₂ ∧ (y₁ ≠ y₂ ∨ y₁.num = 0) then .ok (infinity c)
      else do
        let m ← slope c x₁ y₁ x₂ y₂
        alongLine c m x₁ y₁ x₂
  else .error (.error (.differentCurves p.curve q.curve))

/-- Adds the multiples of `q` that the binary digits of `k` select. The last doubling,
which no digit would use, is left out. -/
def addMultiple (p q : Point) (k : Nat) : Except (Fault CurveError) Point :=
  if k = 0 then .ok p
  else do
    let sum ← if k % 2 = 1 then p.add q else .ok p
    if k / 2 = 0 then return sum
    let double ← q.add q
    addMultiple sum double (k / 2)
termination_by k
decreasing_by omega

/-- The multiple `k p`. -/
def scalarMul (p : Point) (k : Nat) : Except (Fault CurveError) Point :=
  addMultiple (infinity p.curve) p k

end CoinScript.Point
