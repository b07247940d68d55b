import CoinScript.Ecdsa.Verification
import CoinScript.Proofs.Curve.Addition
import CoinScript.Proofs.Curve.Closure

/-!
# Keys that are not points of secp256k1

The point at infinity is refused, and so is a point that names another curve,
because the multiples of the generator cannot be added to its multiples. As
long as the coordinates belong to the field of the curve they name,
verification also gives a verdict. A point that names secp256k1 without
satisfying its equation is not noticed: the formulas of addition do not use
the constant coefficient. The curve that a point names is a value of `Curve`,
so its coefficients belong to one field.
-/

namespace CoinScript

open Secp256k1 (order residue)

theorem combination_curve {p s : Point} {u v : Nat} (sum : combination p u v = .ok s) :
    p.curve = Secp256k1.curve := by
  unfold combination at sum
  obtain ⟨ug, first, sum⟩ := bind_eq_ok_iff.mp sum
  obtain ⟨vp, second, sum⟩ := bind_eq_ok_iff.mp sum
  have ug_curve : ug.curve = Secp256k1.curve := Point.curve_of_scalarMul first
  have vp_curve : vp.curve = p.curve := Point.curve_of_scalarMul second
  exact vp_curve.symm.trans ((Point.curve_of_add sum).2.symm.trans ug_curve)

theorem combination_inField {p : Point} (u v : Nat) (field : p.InField) :
    Outcome False Point.InField (combination p u v) := by
  have generator_field : Secp256k1.generator.InField := ⟨rfl, rfl⟩
  unfold combination
  refine (Point.scalarMul_inField _ generator_field).bind fun ug ug_field => ?_
  refine (Point.scalarMul_inField _ field).bind fun vp vp_field => ?_
  exact Point.add_inField ug vp ug_field vp_field

/-- Verification gives a verdict on every point with coordinates in the field of its curve. -/
theorem Point.verify_inField {p : Point} (field : p.InField) (sig : Signature) (z : Nat) :
    ∃ verdict, p.verify sig z = .ok verdict := by
  unfold verify
  split
  · -- Every other outcome of the sum is turned into a verdict.
    dsimp only
    have outcome := combination_inField (z * inverseModOrder sig.s % order)
      (sig.r * inverseModOrder sig.s % order) field
    split
    · exact ⟨_, rfl⟩
    · exact ⟨_, rfl⟩
    · exact ⟨_, rfl⟩
    · rename_i m stopped
      rw [stopped] at outcome
      exact outcome.elim
  · exact ⟨_, rfl⟩

theorem Point.verify_curve {p : Point} {sig : Signature} {z : Nat}
    (accepted : p.verify sig z = .ok .accepted) :
    p.isInfinity = false ∧ p.curve = Secp256k1.curve := by
  unfold verify at accepted
  split at accepted
  · rename_i admitted
    refine ⟨admitted.2, ?_⟩
    dsimp only at accepted
    split at accepted
    · rename_i sum
      exact combination_curve sum
    all_goals cases accepted
  · cases accepted

/-- The point at infinity and the points of other curves are never accepted, and they get a
verdict if their coordinates belong to the field of their curve. -/
theorem Point.verify_foreign {p : Point}
    (foreign : p.isInfinity = true ∨ p.curve ≠ Secp256k1.curve) (sig : Signature) (z : Nat) :
    p.verify sig z ≠ .ok .accepted ∧
      (p.InField → ∃ verdict, p.verify sig z = .ok verdict ∧ verdict.isAccepted = false) := by
  have refused : p.verify sig z ≠ .ok .accepted := by
    intro accepted
    obtain ⟨finite, curve⟩ := verify_curve accepted
    rcases foreign with infinite | other
    · rw [finite] at infinite
      cases infinite
    · exact other curve
  refine ⟨refused, fun field => ?_⟩
  obtain ⟨verdict, given⟩ := verify_inField field sig z
  refine ⟨verdict, given, ?_⟩
  cases verdict with
  | accepted => exact absurd given refused
  | refused => rfl
  | badKey e => rfl

/-- A point of the toy curve gets the verdict that it is not a key. -/
theorem Point.verify_foreign_toy :
    (point223 192 105).verify ⟨1, 1⟩ 1 ≠ .ok .accepted ∧
      ∃ verdict, (point223 192 105).verify ⟨1, 1⟩ 1 = .ok verdict ∧ verdict.isAccepted = false := by
  obtain ⟨refused, answered⟩ :=
    verify_foreign (p := point223 192 105) (Or.inr (by decide)) ⟨1, 1⟩ 1
  exact ⟨refused, answered ⟨rfl, rfl⟩⟩

/-- The residue of `n` in a field that is not that of secp256k1. -/
def residue7 (n : Nat) : FieldElement := ⟨n % 7, 7, by decide, Nat.mod_lt n (by decide)⟩

/-- The coordinates `(1, 1)` do not satisfy the equation of secp256k1, but a signature is accepted
against them. Coordinates of another field stop the arithmetic without a verdict. -/
theorem Point.verify_off_curve :
    Secp256k1.curve.contains (residue 1) (residue 1) = false ∧
      (affine (residue 1) (residue 1) Secp256k1.curve).verify ⟨1, 1⟩ 0 = .ok .accepted ∧
      (affine (residue7 1) (residue7 2) Secp256k1.curve).verify ⟨2, 1⟩ 0 =
        .error (.differentFields .multiply Secp256k1.fieldPrime 7) := by
  decide +kernel

end CoinScript
