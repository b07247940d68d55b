import CoinScript.Curve.Group
import CoinScript.Proofs.Field.Residues
import Mathlib.AlgebraicGeometry.EllipticCurve.Affine.Point

/-!
# Chord and tangent compute the group of the curve

Over an odd prime modulus the points that satisfy the equation of a curve are
those of the Weierstrass curve with the same coefficients. Addition, reflection
and multiples then are the operations of its group of nonsingular points, and
no operation refuses. The formulas themselves need no discriminant: the sum of
two points of the equation is computed for every pair of coefficients.
-/

namespace CoinScript

open WeierstrassCurve

variable {p : Nat} [Fact p.Prime]

/-- The curve `y² = x³ + a x + b` over the residues modulo `p`. -/
def weierstrass (a b : ZMod p) : WeierstrassCurve.Affine (ZMod p) :=
  ⟨0, 0, 0, a, b⟩

/-- The curve with the given residues as coefficients. -/
def Curve.ofZMod (a b : ZMod p) : Curve :=
  ⟨.ofZMod a, .ofZMod b, rfl⟩

variable {a b : ZMod p}

theorem equation_weierstrass {x y : ZMod p} :
    (weierstrass a b).Equation x y ↔ y * y = x * x * x + (a * x + b) := by
  rw [Affine.equation_iff]
  simp only [weierstrass]
  constructor <;> intro h <;> linear_combination h

theorem discriminant_weierstrass : (weierstrass a b).Δ = -16 * (4 * a ^ 3 + 27 * b ^ 2) := by
  simp only [Δ, b₂, b₄, b₆, b₈, weierstrass]
  ring

/-- Without a repeated root of the cubic no point of the curve is singular. -/
theorem nonsingular_weierstrass (odd : p ≠ 2) (distinct : 4 * a ^ 3 + 27 * b ^ 2 ≠ 0)
    {x y : ZMod p} (h : (weierstrass a b).Equation x y) : (weierstrass a b).Nonsingular x y := by
  have two_ne_zero : (2 : ZMod p) ≠ 0 := Ring.two_ne_zero (by rwa [ZMod.ringChar_zmod_n])
  refine (Affine.equation_iff_nonsingular_of_Δ_ne_zero ?_).mp h
  rw [discriminant_weierstrass, show (-16 : ZMod p) = -2 ^ 4 by norm_num]
  exact mul_ne_zero (neg_ne_zero.mpr (pow_ne_zero 4 two_ne_zero)) distinct

/-- The check of coordinates is the equation of the curve. -/
theorem Curve.contains_ofZMod {x y : ZMod p} :
    (Curve.ofZMod a b).contains (.ofZMod x) (.ofZMod y) = true ↔
      (weierstrass a b).Equation x y := by
  rw [equation_weierstrass]
  simp only [Curve.contains, Curve.modulus, Curve.ofZMod, FieldElement.modulus_ofZMod,
    FieldElement.num_ofZMod, beq_self_eq_true, Bool.true_and, beq_iff_eq]
  rw [← ZMod.natCast_eq_natCast_iff']
  simp only [Nat.cast_mul, Nat.cast_add, ZMod.natCast_zmod_val]

namespace Point

section Formulas

variable {x₁ y₁ x₂ y₂ : ZMod p}

theorem negY_weierstrass (x y : ZMod p) : (weierstrass a b).negY x y = -y := by
  simp [Affine.negY, weierstrass]

theorem addX_weierstrass (m : ZMod p) : (weierstrass a b).addX x₁ x₂ m = m * m - x₁ - x₂ := by
  simp only [Affine.addX, weierstrass]
  ring

theorem addY_weierstrass (m : ZMod p) :
    (weierstrass a b).addY x₁ x₂ y₁ m = m * (x₁ - (m * m - x₁ - x₂)) - y₁ := by
  simp only [Affine.addY, Affine.negAddY, negY_weierstrass, addX_weierstrass]
  ring

/-- On the curve, points above each other are opposite when their second coordinates differ
or vanish. -/
theorem vertical_iff (odd : p ≠ 2) (h₁ : (weierstrass a b).Equation x₁ y₁)
    (h₂ : (weierstrass a b).Equation x₂ y₂) :
    (x₁ = x₂ ∧ (y₁ ≠ y₂ ∨ y₁ = 0)) ↔ x₁ = x₂ ∧ y₁ = (weierstrass a b).negY x₂ y₂ := by
  refine and_congr_right fun same => ?_
  have two_ne_zero : (2 : ZMod p) ≠ 0 := Ring.two_ne_zero (by rwa [ZMod.ringChar_zmod_n])
  rw [negY_weierstrass]
  have signs : y₁ = y₂ ∨ y₁ = -y₂ := by
    simpa only [negY_weierstrass] using Affine.Y_eq_of_X_eq h₁ h₂ same
  constructor
  · rintro (different | rfl)
    · exact signs.resolve_left different
    · rcases signs with rfl | opposite
      · exact neg_zero.symm
      · exact opposite
  · rintro rfl
    by_cases equal : -y₂ = y₂
    · have doubled : 2 * y₂ = 0 := by linear_combination -equal
      have := (mul_eq_zero.mp doubled).resolve_left two_ne_zero
      exact Or.inr (by rw [this, neg_zero])
    · exact Or.inl equal

theorem slope_ofZMod (h₁ : (weierstrass a b).Equation x₁ y₁)
    (h₂ : (weierstrass a b).Equation x₂ y₂)
    (crossing : ¬(x₁ = x₂ ∧ y₁ = (weierstrass a b).negY x₂ y₂)) :
    slope (Curve.ofZMod a b) (.ofZMod x₁) (.ofZMod y₁) (.ofZMod x₂) (.ofZMod y₂) =
      .ok (.ofZMod ((weierstrass a b).slope x₁ x₂ y₁ y₂)) := by
  by_cases same : x₁ = x₂
  · subst same
    have apart : y₁ ≠ (weierstrass a b).negY x₁ y₂ := fun h => crossing ⟨rfl, h⟩
    obtain rfl : y₁ = y₂ := Affine.Y_eq_of_Y_ne h₁ h₂ rfl apart
    have nonzero : 2 * y₁ ≠ 0 := by
      intro h
      apply apart
      rw [negY_weierstrass]
      linear_combination h
    have line : (weierstrass a b).slope x₁ x₁ y₁ y₁ = (3 * (x₁ * x₁) + a) / (2 * y₁) := by
      rw [Affine.slope_of_Y_ne rfl apart, negY_weierstrass]
      simp only [weierstrass]
      congr 1 <;> ring
    rw [line]
    simp only [slope, Curve.ofZMod, if_true, FieldElement.residue_ofZMod, Nat.cast_ofNat,
      FieldElement.mul_ofZMod, FieldElement.add_ofZMod, lift_ok, ok_bind,
      FieldElement.checkedDiv_ofZMod _ nonzero, lift_ok_field]
  · have nonzero : x₂ - x₁ ≠ 0 := sub_ne_zero.mpr (Ne.symm same)
    have line : (weierstrass a b).slope x₁ x₂ y₁ y₂ = (y₂ - y₁) / (x₂ - x₁) := by
      rw [Affine.slope_of_X_ne same, ← neg_sub y₂, ← neg_sub x₂, neg_div_neg_eq]
    rw [line]
    simp only [slope, FieldElement.ofZMod_inj, same, if_false, FieldElement.sub_ofZMod, lift_ok,
      ok_bind, FieldElement.checkedDiv_ofZMod _ nonzero, lift_ok_field]

theorem alongLine_ofZMod (c : Curve) (m : ZMod p) :
    alongLine c (.ofZMod m) (.ofZMod x₁) (.ofZMod y₁) (.ofZMod x₂) =
      .ok (.affine (.ofZMod ((weierstrass a b).addX x₁ x₂ m))
        (.ofZMod ((weierstrass a b).addY x₁ x₂ y₁ m)) c) := by
  simp only [alongLine, FieldElement.mul_ofZMod, FieldElement.sub_ofZMod, lift_ok, ok_bind,
    addX_weierstrass, addY_weierstrass, pure, Except.pure]

/-- Addition of two affine points of the curve, by the formulas for the line through them. -/
theorem add_affine (odd : p ≠ 2) (h₁ : (weierstrass a b).Equation x₁ y₁)
    (h₂ : (weierstrass a b).Equation x₂ y₂) :
    (affine (.ofZMod x₁) (.ofZMod y₁) (Curve.ofZMod a b)).add
        (affine (.ofZMod x₂) (.ofZMod y₂) (Curve.ofZMod a b)) =
      .ok (if x₁ = x₂ ∧ y₁ = (weierstrass a b).negY x₂ y₂ then infinity (Curve.ofZMod a b)
        else
          let m := (weierstrass a b).slope x₁ x₂ y₁ y₂
          affine (.ofZMod ((weierstrass a b).addX x₁ x₂ m))
            (.ofZMod ((weierstrass a b).addY x₁ x₂ y₁ m)) (Curve.ofZMod a b)) := by
  simp only [add, curve, if_true, ne_eq, FieldElement.ofZMod_inj, FieldElement.num_eq_zero_iff]
  simp only [← ne_eq, vertical_iff odd h₁ h₂]
  by_cases vertical : x₁ = x₂ ∧ y₁ = (weierstrass a b).negY x₂ y₂
  · rw [if_pos vertical, if_pos vertical]
  · rw [if_neg vertical, if_neg vertical, slope_ofZMod h₁ h₂ vertical, ok_bind,
      alongLine_ofZMod (a := a) (b := b)]

theorem some_congr {h₁ : (weierstrass a b).Nonsingular x₁ y₁}
    {h₂ : (weierstrass a b).Nonsingular x₂ y₂} (same_x : x₁ = x₂) (same_y : y₁ = y₂) :
    Affine.Point.some x₁ y₁ h₁ = .some x₂ y₂ h₂ := by
  subst same_x same_y
  rfl

end Formulas

/-- The point that an element of the group of the curve stands for. -/
def ofGroup : (weierstrass a b).Point → Point
  | .zero => infinity (Curve.ofZMod a b)
  | .some x y _ => affine (.ofZMod x) (.ofZMod y) (Curve.ofZMod a b)

@[simp] theorem ofGroup_zero :
    ofGroup (0 : (weierstrass a b).Point) = infinity (Curve.ofZMod a b) := rfl

@[simp] theorem curve_ofGroup (P : (weierstrass a b).Point) :
    (ofGroup P).curve = Curve.ofZMod a b := by
  cases P <;> rfl

theorem isInfinity_ofGroup {P : (weierstrass a b).Point} :
    (ofGroup P).isInfinity = true ↔ P = 0 := by
  cases P with
  | zero => exact ⟨fun _ => rfl, fun _ => rfl⟩
  | some x y h => exact ⟨fun h => (nomatch h), fun h => (nomatch h)⟩

theorem ofGroup_injective :
    Function.Injective (ofGroup : (weierstrass a b).Point → Point) := by
  rintro (_ | ⟨x₁, y₁, h₁⟩) (_ | ⟨x₂, y₂, h₂⟩) same
  · rfl
  · cases same
  · cases same
  · simp only [ofGroup, affine.injEq, FieldElement.ofZMod_inj, and_true] at same
    exact some_congr same.1 same.2

theorem infinity_add {c : Curve} {q : Point} (same : q.curve = c) :
    (infinity c).add q = .ok q := by
  rw [add]
  exact if_pos same.symm

theorem add_infinity {c : Curve} {q : Point} (same : q.curve = c) :
    q.add (infinity c) = .ok q := by
  subst same
  cases q <;> simp [add, curve]

/-- Addition is the group law. -/
theorem add_ofGroup (odd : p ≠ 2) (P Q : (weierstrass a b).Point) :
    (ofGroup P).add (ofGroup Q) = .ok (ofGroup (P + Q)) := by
  cases P with
  | zero =>
    change (infinity _).add _ = Except.ok (ofGroup (0 + Q))
    rw [zero_add, infinity_add (curve_ofGroup Q)]
  | some x₁ y₁ h₁ =>
    cases Q with
    | zero =>
      change (ofGroup _).add (infinity _) = Except.ok (ofGroup (_ + 0))
      rw [add_zero, add_infinity (curve_ofGroup _)]
    | some x₂ y₂ h₂ =>
      simp only [ofGroup, add_affine odd h₁.1 h₂.1]
      by_cases vertical : x₁ = x₂ ∧ y₁ = (weierstrass a b).negY x₂ y₂
      · rw [if_pos vertical, Affine.Point.add_of_Y_eq vertical.1 vertical.2]
      · rw [if_neg vertical, Affine.Point.add_some vertical]

/-- Reflection is the inverse of the group. -/
theorem negate_ofGroup (P : (weierstrass a b).Point) : (ofGroup P).negate = ofGroup (-P) := by
  cases P with
  | zero => rfl
  | some x y h =>
    rw [Affine.Point.neg_some]
    simp only [ofGroup, negate, FieldElement.neg_ofZMod, negY_weierstrass]

theorem addMultiple_ofGroup (odd : p ≠ 2) (P Q : (weierstrass a b).Point) (k : Nat) :
    (ofGroup P).addMultiple (ofGroup Q) k = .ok (ofGroup (P + k • Q)) := by
  induction k using Nat.strong_induction_on generalizing P Q with
  | _ k ih =>
    rw [addMultiple]
    by_cases none : k = 0
    · rw [if_pos none, none, zero_nsmul, add_zero]
    rw [if_neg none]
    -- The lowest digit of `k` only decides what `R` is. The loop then goes on with the others.
    have rest (R : (weierstrass a b).Point) :
        (if k / 2 = 0 then pure (ofGroup R)
          else (ofGroup R).addMultiple (ofGroup (Q + Q)) (k / 2)) =
        Except.ok (ofGroup (R + (k / 2 * 2) • Q)) := by
      by_cases last : k / 2 = 0
      · rw [if_pos last, last, zero_mul, zero_nsmul, add_zero]
        rfl
      · rw [if_neg last, ih (k / 2) (by omega), ← two_nsmul, ← mul_nsmul']
    rcases Nat.mod_two_eq_zero_or_one k with even | uneven
    · have binary : k / 2 * 2 = k := by omega
      simp only [even, zero_ne_one, if_false, add_ofGroup odd, ok_bind, rest, binary]
    · have binary : P + k • Q = P + Q + (k / 2 * 2) • Q := by
        rw [add_assoc, ← succ_nsmul', show k / 2 * 2 + 1 = k by omega]
      simp only [uneven, if_true, add_ofGroup odd, ok_bind, rest, binary]

theorem scalarMul_ofGroup (odd : p ≠ 2) (P : (weierstrass a b).Point) (k : Nat) :
    (ofGroup P).scalarMul k = .ok (ofGroup (k • P)) := by
  have start : infinity (ofGroup P).curve = ofGroup (0 : (weierstrass a b).Point) := by
    rw [curve_ofGroup, ofGroup_zero]
  rw [scalarMul, start, addMultiple_ofGroup odd, zero_add]

end Point

end CoinScript
