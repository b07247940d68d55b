import CoinScript.Proofs.Curve.GroupLaw
import Mathlib.Tactic.NormNum.Prime

/-!
# The laws of addition and of multiples

The points of a curve are its point at infinity and the coordinates that pass
its check. Over an odd prime modulus addition accepts any two of them and
gives a third, also on a curve with a singular point. On a curve without one
the points are a commutative group, because addition is that of the group of
the Weierstrass curve.

A multiple is computed from the binary digits of its factor, with a running
double of the point. Adding the point to itself again and again goes through
other sums in between. On a smooth curve over an odd prime field both end in
the multiple of the group of the curve, and no sum on the way is refused. The
multiple of a sum of factors is therefore the sum of the multiples, and the
multiple of a product is a multiple of a multiple.
-/

namespace CoinScript

open WeierstrassCurve

/-- No point of the curve is singular: the cubic has no repeated root. -/
def Curve.IsSmooth (c : Curve) : Prop :=
  (4 * c.a.num ^ 3 + 27 * c.b.num ^ 2) % c.modulus ≠ 0

instance (c : Curve) : Decidable c.IsSmooth := inferInstanceAs (Decidable (_ ≠ _))

namespace Point

/-- The point at infinity of the curve, or coordinates that pass the check of the curve. -/
def IsOn (c : Curve) : Point → Prop
  | infinity d => d = c
  | affine x y d => d = c ∧ c.contains x y = true

instance (c : Curve) : DecidablePred (IsOn c)
  | infinity d => inferInstanceAs (Decidable (d = c))
  | affine x y d => inferInstanceAs (Decidable (d = c ∧ c.contains x y = true))

variable {p : Nat} [Fact p.Prime] {a b : ZMod p}

theorem isOn_ofZMod_iff {P : Point} :
    P.IsOn (Curve.ofZMod a b) ↔ P = infinity (Curve.ofZMod a b) ∨
      ∃ x y : ZMod p, (weierstrass a b).Equation x y ∧
        P = affine (.ofZMod x) (.ofZMod y) (Curve.ofZMod a b) := by
  constructor
  · intro on
    cases P with
    | infinity d => exact Or.inl (congrArg infinity on)
    | affine x y d =>
      obtain ⟨rfl, checked⟩ := on
      have fields := checked
      simp only [Curve.contains, Bool.and_eq_true, beq_iff_eq] at fields
      obtain ⟨⟨x_field, y_field⟩, -⟩ := fields
      rw [FieldElement.eq_ofZMod (m := p) x_field, FieldElement.eq_ofZMod (m := p) y_field] at checked ⊢
      exact Or.inr ⟨_, _, Curve.contains_ofZMod.mp checked, rfl⟩
  · rintro (rfl | ⟨x, y, equation, rfl⟩)
    · rfl
    · exact ⟨rfl, Curve.contains_ofZMod.mpr equation⟩

theorem isOn_ofGroup (P : (weierstrass a b).Point) : (ofGroup P).IsOn (Curve.ofZMod a b) := by
  cases P with
  | zero => rfl
  | some x y h => exact ⟨rfl, Curve.contains_ofZMod.mpr h.1⟩

/-- On a smooth curve every point is an element of the group. -/
theorem exists_ofGroup (odd : p ≠ 2) (smooth : 4 * a ^ 3 + 27 * b ^ 2 ≠ 0) {P : Point}
    (on : P.IsOn (Curve.ofZMod a b)) : ∃ g : (weierstrass a b).Point, P = ofGroup g := by
  obtain rfl | ⟨x, y, equation, rfl⟩ := isOn_ofZMod_iff.mp on
  · exact ⟨0, rfl⟩
  · exact ⟨.some x y (nonsingular_weierstrass odd smooth equation), rfl⟩

/-- The line through two points of the curve meets it in a third, singular or not. -/
theorem add_isOn (odd : p ≠ 2) {P Q : Point} (onP : P.IsOn (Curve.ofZMod a b))
    (onQ : Q.IsOn (Curve.ofZMod a b)) : ∃ S, P.add Q = .ok S ∧ S.IsOn (Curve.ofZMod a b) := by
  obtain rfl | ⟨x₁, y₁, h₁, rfl⟩ := isOn_ofZMod_iff.mp onP
  · refine ⟨Q, infinity_add ?_, onQ⟩
    obtain rfl | ⟨x₂, y₂, h₂, rfl⟩ := isOn_ofZMod_iff.mp onQ <;> rfl
  obtain rfl | ⟨x₂, y₂, h₂, rfl⟩ := isOn_ofZMod_iff.mp onQ
  · exact ⟨_, add_infinity rfl, onP⟩
  refine ⟨_, add_affine odd h₁ h₂, ?_⟩
  by_cases vertical : x₁ = x₂ ∧ y₁ = (weierstrass a b).negY x₂ y₂
  · rw [if_pos vertical]
    rfl
  · rw [if_neg vertical]
    exact ⟨rfl, Curve.contains_ofZMod.mpr (Affine.equation_add h₁ h₂ vertical)⟩

end Point

section Coefficients

variable {p : Nat} [Fact p.Prime]

theorem Curve.exists_ofZMod {c : Curve} (field : c.modulus = p) :
    ∃ a b : ZMod p, c = Curve.ofZMod a b := by
  obtain ⟨a, b, same⟩ := c
  have a_eq := FieldElement.eq_ofZMod (m := p) field
  have b_eq := FieldElement.eq_ofZMod (m := p) (same.symm.trans field)
  exact ⟨a.num, b.num, by simp only [Curve.ofZMod, ← a_eq, ← b_eq]⟩

theorem Curve.isSmooth_ofZMod {a b : ZMod p} :
    (Curve.ofZMod a b).IsSmooth ↔ 4 * a ^ 3 + 27 * b ^ 2 ≠ 0 := by
  change ¬(4 * a.val ^ 3 + 27 * b.val ^ 2) % p = 0 ↔ _
  rw [← Nat.dvd_iff_mod_eq_zero, ← ZMod.natCast_eq_zero_iff]
  push_cast
  rw [ZMod.natCast_zmod_val, ZMod.natCast_zmod_val]

end Coefficients

/-- Addition is total on the points of a curve over an odd prime field, and on a smooth curve it
makes them a commutative group. -/
theorem Point.add_group_laws {c : Curve} (prime : c.modulus.Prime) (odd : c.modulus ≠ 2)
    {P Q R : Point} (onP : P.IsOn c) (onQ : Q.IsOn c) (onR : R.IsOn c) :
    (∃ S, P.add Q = .ok S ∧ S.IsOn c) ∧
      (c.IsSmooth →
        P.add Q = Q.add P ∧
        (∃ S, (P.add Q >>= fun S => S.add R) = .ok S ∧ (Q.add R >>= fun S => P.add S) = .ok S) ∧
        (infinity c).add P = .ok P ∧ P.add (infinity c) = .ok P ∧
        P.negate.IsOn c ∧ P.add P.negate = .ok (infinity c)) := by
  obtain ⟨p, field⟩ : ∃ p, c.modulus = p := ⟨_, rfl⟩
  rw [field] at prime odd
  have : Fact p.Prime := ⟨prime⟩
  obtain ⟨a, b, rfl⟩ := Curve.exists_ofZMod field
  refine ⟨add_isOn odd onP onQ, fun smooth => ?_⟩
  have distinct := Curve.isSmooth_ofZMod.mp smooth
  obtain ⟨P, rfl⟩ := exists_ofGroup odd distinct onP
  obtain ⟨Q, rfl⟩ := exists_ofGroup odd distinct onQ
  obtain ⟨R, rfl⟩ := exists_ofGroup odd distinct onR
  -- What is left are the laws of the group, each under the image of its elements.
  refine ⟨?_, ⟨ofGroup (P + Q + R), ?_, ?_⟩, infinity_add (curve_ofGroup P),
    add_infinity (curve_ofGroup P), ?_, ?_⟩
  · rw [add_ofGroup odd, add_ofGroup odd, add_comm]
  · rw [add_ofGroup odd, ok_bind, add_ofGroup odd]
  · rw [add_ofGroup odd, ok_bind, add_ofGroup odd, add_assoc]
  · rw [negate_ofGroup]
    exact isOn_ofGroup (-P)
  · rw [negate_ofGroup, add_ofGroup odd, add_neg_cancel, ofGroup_zero]

section Example

/-- The residue of `n` modulo the toy prime 223. -/
def residue223 (n : Nat) : FieldElement :=
  ⟨n % 223, 223, by decide, Nat.mod_lt n (by decide)⟩

/-- The curve `y² = x³ + 7` over a toy field. -/
def curve223 : Curve := ⟨residue223 0, residue223 7, rfl⟩

def point223 (x y : Nat) : Point := .affine (residue223 x) (residue223 y) curve223

/-- A chord, a tangent and the reflection of a point on the toy curve. -/
theorem add_group_laws_toy :
    (∃ S, (point223 192 105).add (point223 17 56) = .ok S ∧ S.IsOn curve223) ∧
      (point223 192 105).add (point223 17 56) = (point223 17 56).add (point223 192 105) ∧
      (∃ S, ((point223 192 105).add (point223 17 56) >>= fun S => S.add (point223 192 105)) = .ok S ∧
        ((point223 17 56).add (point223 192 105) >>= fun S => (point223 192 105).add S) = .ok S) ∧
      (Point.infinity curve223).add (point223 192 105) = .ok (point223 192 105) ∧
      (point223 192 105).add (.infinity curve223) = .ok (point223 192 105) ∧
      (point223 192 105).negate.IsOn curve223 ∧
      (point223 192 105).add (point223 192 105).negate = .ok (.infinity curve223) := by
  obtain ⟨closed, laws⟩ := Point.add_group_laws (c := curve223) (P := point223 192 105)
    (Q := point223 17 56) (R := point223 192 105) (by norm_num [curve223, residue223, Curve.modulus])
    (by decide) (by decide) (by decide) (by decide)
  exact ⟨closed, laws (by decide)⟩

end Example

/-! ## Multiples -/

namespace Point

/-- The sum of `k` copies of a point, added one after another to the point at infinity. -/
def repeatedSum (p : Point) : Nat → Except (Fault CurveError) Point
  | 0 => .ok (infinity p.curve)
  | k + 1 => do
    let sum ← p.repeatedSum k
    sum.add p

theorem repeatedSum_ofGroup {p : Nat} [Fact p.Prime] {a b : ZMod p} (odd : p ≠ 2)
    (P : (weierstrass a b).Point) (k : Nat) :
    (ofGroup P).repeatedSum k = .ok (ofGroup (k • P)) := by
  induction k with
  | zero => rw [repeatedSum, curve_ofGroup, zero_nsmul, ofGroup_zero]
  | succ k ih => rw [repeatedSum, ih, ok_bind, add_ofGroup odd, ← succ_nsmul]

/-- On a smooth curve over an odd prime field every multiple of a point exists, is on the curve and
is the repeated sum. Multiples by sums and by products of factors follow the laws of the group. -/
theorem scalarMul_repeated {c : Curve} (prime : c.modulus.Prime) (odd : c.modulus ≠ 2)
    (smooth : c.IsSmooth) {P : Point} (on : P.IsOn c) :
    (∀ k, ∃ S, P.scalarMul k = .ok S ∧ P.repeatedSum k = .ok S ∧ S.IsOn c) ∧
      (∀ j k, P.scalarMul (j + k) =
        P.scalarMul j >>= fun S => P.scalarMul k >>= fun T => S.add T) ∧
      ∀ j k, P.scalarMul (j * k) = P.scalarMul k >>= fun S => S.scalarMul j := by
  obtain ⟨p, field⟩ : ∃ p, c.modulus = p := ⟨_, rfl⟩
  rw [field] at prime odd
  have : Fact p.Prime := ⟨prime⟩
  obtain ⟨a, b, rfl⟩ := Curve.exists_ofZMod field
  obtain ⟨P, rfl⟩ := exists_ofGroup odd (Curve.isSmooth_ofZMod.mp smooth) on
  refine ⟨fun k => ⟨ofGroup (k • P), ?_, ?_, isOn_ofGroup _⟩, fun j k => ?_, fun j k => ?_⟩
  · exact scalarMul_ofGroup odd P k
  · exact repeatedSum_ofGroup odd P k
  · rw [scalarMul_ofGroup odd, scalarMul_ofGroup odd, scalarMul_ofGroup odd, ok_bind, ok_bind,
      add_ofGroup odd, add_nsmul]
  · rw [scalarMul_ofGroup odd, scalarMul_ofGroup odd, ok_bind, scalarMul_ofGroup odd, mul_nsmul']

/-- On the toy curve the double of `(47, 71)` is `(36, 111)`, as a multiple and as a sum of copies. Its
eighth multiple is the sum of the double and the sixth one, and the fourth multiple of the double. The
point has the order 21. -/
theorem scalarMul_repeated_toy :
    (point223 47 71).scalarMul 2 = .ok (point223 36 111) ∧
      (point223 47 71).repeatedSum 2 = .ok (point223 36 111) ∧
      (point223 36 111).add (point223 139 137) = .ok (point223 116 55) ∧
      (point223 36 111).scalarMul 4 = .ok (point223 116 55) ∧
      (point223 47 71).repeatedSum 21 = .ok (infinity curve223) ∧
      (point223 116 168).add (point223 116 55) = .ok (infinity curve223) ∧
      (point223 92 47).scalarMul 3 = .ok (infinity curve223) := by
  obtain ⟨sums, added, multiplied⟩ := scalarMul_repeated (c := curve223) (P := point223 47 71)
    (by norm_num [curve223, residue223, Curve.modulus]) (by decide) (by decide) (by decide)
  have double : (point223 47 71).scalarMul 2 = .ok (point223 36 111) := by decide +kernel
  have sixth : (point223 47 71).scalarMul 6 = .ok (point223 139 137) := by decide +kernel
  have seventh : (point223 47 71).scalarMul 7 = .ok (point223 92 47) := by decide +kernel
  have eighth : (point223 47 71).scalarMul 8 = .ok (point223 116 55) := by decide +kernel
  have thirteenth : (point223 47 71).scalarMul 13 = .ok (point223 116 168) := by decide +kernel
  have whole : (point223 47 71).scalarMul 21 = .ok (infinity curve223) := by decide +kernel
  refine ⟨double, ?_, ?_, ?_, ?_, ?_, ?_⟩
  · obtain ⟨S, multiple, sum, -⟩ := sums 2
    rw [sum, ← multiple, double]
  · rw [← eighth, added 2 6, double, sixth, ok_bind, ok_bind]
  · rw [← eighth, multiplied 4 2, double, ok_bind]
  · obtain ⟨S, multiple, sum, -⟩ := sums 21
    rw [sum, ← multiple, whole]
  · rw [← whole, added 13 8, thirteenth, eighth, ok_bind, ok_bind]
  · rw [← whole, multiplied 3 7, seventh, ok_bind]

end Point

end CoinScript
