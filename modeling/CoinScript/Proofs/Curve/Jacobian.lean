import CoinScript.Proofs.Curve.GroupLaw
import Mathlib.Tactic.LinearCombination

/-!
# Multiples without division

A triple `(x, y, z)` of integers stands for the point `(x / z², y / z³)` of a
curve `y² = x³ + b`. Doubling and the addition of a fixed affine point then
need products only, so that a large multiple of a point can be evaluated. The
last coordinate vanishes as soon as a step leaves the affine points, and it
stays zero from then on: a result with another last coordinate is right.
-/

namespace CoinScript

open WeierstrassCurve

structure Jacobian where
  x : Int
  y : Int
  z : Int

namespace Jacobian

def double (p : Nat) (t : Jacobian) : Jacobian :=
  let s := 4 * t.x * t.y ^ 2
  let e := 3 * t.x ^ 2
  let x := e ^ 2 - 2 * s
  ⟨x % p, (e * (s - x) - 8 * t.y ^ 4) % p, 2 * t.y * t.z % p⟩

def addAffine (p : Nat) (t : Jacobian) (x₂ y₂ : Nat) : Jacobian :=
  let h := x₂ * t.z ^ 2 - t.x
  let r := y₂ * t.z ^ 3 - t.y
  let x := r ^ 2 - h ^ 3 - 2 * t.x * h ^ 2
  ⟨x % p, (r * (t.x * h ^ 2 - x) - t.y * h ^ 3) % p, t.z * h % p⟩

/-- The multiple by `k` of an affine point, high binary digit of `k` first. -/
def multiple (p x y k : Nat) : Jacobian :=
  if k ≤ 1 then ⟨x, y, 1⟩
  else
    let t := (multiple p x y (k / 2)).double p
    if k % 2 = 1 then t.addAffine p x y else t
termination_by k

variable {p : Nat} [Fact p.Prime] {b : ZMod p}

/-- The triple stands for the affine point with these coordinates. -/
structure Represents (t : Jacobian) (x y : ZMod p) : Prop where
  z_ne_zero : (t.z : ZMod p) ≠ 0
  x_eq : (t.x : ZMod p) = x * (t.z : ZMod p) ^ 2
  y_eq : (t.y : ZMod p) = y * (t.z : ZMod p) ^ 3

/-- The triple stands for an element of the group of the curve. -/
def Denotes (t : Jacobian) (P : (weierstrass 0 b).Point) : Prop :=
  ∃ x y h, P = .some x y h ∧ t.Represents x y

theorem denotes_double {t : Jacobian} {P : (weierstrass 0 b).Point} (denotes : t.Denotes P)
    (proper : ((t.double p).z : ZMod p) ≠ 0) : (t.double p).Denotes (P + P) := by
  obtain ⟨x, y, h, rfl, z_ne_zero, x_eq, y_eq⟩ := denotes
  have z_eq : ((t.double p).z : ZMod p) = 2 * y * (t.z : ZMod p) ^ 4 := by
    simp only [double, ZMod.intCast_mod]
    push_cast
    rw [y_eq]
    ring
  have two_y_ne_zero : 2 * y ≠ 0 := by
    intro zero
    rw [z_eq, zero, zero_mul] at proper
    exact proper rfl
  have apart : y ≠ (weierstrass 0 b).negY x y := by
    rw [Point.negY_weierstrass]
    intro opposite
    exact two_y_ne_zero (by linear_combination opposite)
  set m := (weierstrass 0 b).slope x x y y with slope_eq
  have line : m * (2 * y) = 3 * x ^ 2 := by
    rw [slope_eq, Affine.slope_of_Y_ne rfl apart, Point.negY_weierstrass]
    have bottom : y - -y = 2 * y := by ring
    simp only [weierstrass, bottom, div_mul_cancel₀ _ two_y_ne_zero]
    ring
  refine ⟨_, _, _, Affine.Point.add_self_of_Y_ne apart, proper, ?_, ?_⟩
  · rw [z_eq, Point.addX_weierstrass, ← slope_eq]
    simp only [double, ZMod.intCast_mod]
    push_cast
    rw [x_eq, y_eq]
    linear_combination (-(t.z : ZMod p) ^ 8 * (m * (2 * y) + 3 * x ^ 2)) * line
  · rw [z_eq, Point.addY_weierstrass, ← slope_eq]
    simp only [double, ZMod.intCast_mod]
    push_cast
    rw [x_eq, y_eq]
    linear_combination (-(t.z : ZMod p) ^ 12 * (12 * x * y ^ 2 - (9 * x ^ 4 +
      3 * x ^ 2 * (m * (2 * y)) + (m * (2 * y)) ^ 2))) * line

theorem denotes_addAffine {t : Jacobian} {P : (weierstrass 0 b).Point} {x₂ y₂ : Nat}
    {h₂ : (weierstrass 0 b).Nonsingular x₂ y₂} (denotes : t.Denotes P)
    (proper : ((t.addAffine p x₂ y₂).z : ZMod p) ≠ 0) :
    (t.addAffine p x₂ y₂).Denotes (P + .some _ _ h₂) := by
  obtain ⟨x, y, h, rfl, z_ne_zero, x_eq, y_eq⟩ := denotes
  have z_eq : ((t.addAffine p x₂ y₂).z : ZMod p) = (t.z : ZMod p) ^ 3 * (x₂ - x) := by
    simp only [addAffine, ZMod.intCast_mod]
    push_cast
    rw [x_eq]
    ring
  have gap : (x₂ : ZMod p) - x ≠ 0 := by
    intro zero
    rw [z_eq, zero, mul_zero] at proper
    exact proper rfl
  have apart : x ≠ x₂ := fun same => gap (by rw [same, sub_self])
  set m := (weierstrass 0 b).slope x x₂ y y₂ with slope_eq
  have line : m * (x₂ - x) = y₂ - y := by
    rw [slope_eq, Affine.slope_of_X_ne apart, ← neg_sub (y₂ : ZMod p), ← neg_sub (x₂ : ZMod p),
      neg_div_neg_eq, div_mul_cancel₀ _ gap]
  refine ⟨_, _, _, Affine.Point.add_of_X_ne apart, proper, ?_, ?_⟩
  · rw [z_eq, Point.addX_weierstrass, ← slope_eq]
    simp only [addAffine, ZMod.intCast_mod]
    push_cast
    rw [x_eq, y_eq]
    linear_combination (-(t.z : ZMod p) ^ 6 * (m * (x₂ - x) + (y₂ - y))) * line
  · rw [z_eq, Point.addY_weierstrass, ← slope_eq]
    simp only [addAffine, ZMod.intCast_mod]
    push_cast
    rw [x_eq, y_eq]
    linear_combination (-(t.z : ZMod p) ^ 9 * ((x₂ - x) ^ 2 * (2 * x + x₂) - ((y₂ - y) ^ 2 +
      (y₂ - y) * (m * (x₂ - x)) + (m * (x₂ - x)) ^ 2))) * line

/-- A last coordinate other than zero cannot come from a step that lost the point. -/
theorem z_ne_zero_of_double {t : Jacobian} (proper : ((t.double p).z : ZMod p) ≠ 0) :
    (t.z : ZMod p) ≠ 0 := by
  intro zero
  apply proper
  simp only [double, ZMod.intCast_mod]
  push_cast
  rw [zero, mul_zero]

theorem z_ne_zero_of_addAffine {t : Jacobian} {x₂ y₂ : Nat}
    (proper : ((t.addAffine p x₂ y₂).z : ZMod p) ≠ 0) : (t.z : ZMod p) ≠ 0 := by
  intro zero
  apply proper
  simp only [addAffine, ZMod.intCast_mod]
  push_cast
  rw [zero, zero_mul]

/-- A multiple with a last coordinate other than zero is the multiple of the group. -/
theorem denotes_multiple {x y : Nat} (h : (weierstrass (0 : ZMod p) b).Nonsingular x y) (k : Nat)
    (positive : 0 < k) (proper : ((multiple p x y k).z : ZMod p) ≠ 0) :
    (multiple p x y k).Denotes (k • Affine.Point.some _ _ h) := by
  -- Only the last coordinate of the result is known not to vanish, and so it is traced back through
  -- the steps before the hypothesis for the half applies.
  fun_induction multiple p x y k with
  | case1 k small =>
    obtain rfl : k = 1 := by omega
    rw [one_nsmul]
    exact ⟨_, _, h, rfl, proper, by simp, by simp⟩
  | case2 k large t odd ih =>
    have doubled := z_ne_zero_of_addAffine proper
    have half := denotes_double (ih (by omega) (z_ne_zero_of_double doubled)) doubled
    have binary : k • Affine.Point.some _ _ h =
        (k / 2) • .some _ _ h + (k / 2) • .some _ _ h + .some _ _ h := by
      rw [← add_nsmul, ← succ_nsmul]
      congr 1
      omega
    rw [binary]
    exact denotes_addAffine half proper
  | case3 k large t even ih =>
    have half := denotes_double (ih (by omega) (z_ne_zero_of_double proper)) proper
    have binary : k • Affine.Point.some _ _ h =
        (k / 2) • .some _ _ h + (k / 2) • .some _ _ h := by
      rw [← add_nsmul]
      congr 1
      omega
    rw [binary]
    exact half

end Jacobian

end CoinScript
