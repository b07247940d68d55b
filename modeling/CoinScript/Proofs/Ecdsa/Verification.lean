import CoinScript.Ecdsa.Verification
import CoinScript.Proofs.Curve.Addition
import CoinScript.Proofs.Curve.Generator

/-!
# Public points and what verification decides

Every natural number has a public point, also one above the order, and it is a
point of secp256k1. Sums, multiples and reflections of public points are the
public points of sums, products and opposites modulo the order. Two numbers
have the same public point only if they are congruent, because the order of
the generator is exactly `order`.

Against the public point of a secret `d`, a signature `(r, s)` on `z` stands
for the multiple of the generator by `(z + r d) / s`, computed modulo the
order. It is accepted exactly when both numbers are in range and that multiple
is a point whose first coordinate is `r` modulo the order. Multiples are
written with factors modulo the order, on which they are injective.
-/

namespace CoinScript

open WeierstrassCurve

namespace Secp256k1

/-! ## Multiples of the generator -/

theorem fieldPrime_lt_two_order : fieldPrime < 2 * order := by decide

/-- The multiple of the generator by a factor modulo the order. -/
def multiple (t : ZMod order) : Group := t.val • G

theorem multiple_natCast (k : Nat) : multiple (k : ZMod order) = k • G := by
  rw [multiple, nsmul_G_eq_iff, ZMod.natCast_zmod_val]

theorem multiple_add (s t : ZMod order) : multiple (s + t) = multiple s + multiple t := by
  rw [multiple, multiple, multiple, ← add_nsmul, nsmul_G_eq_iff]
  push_cast
  rw [ZMod.natCast_zmod_val, ZMod.natCast_zmod_val, ZMod.natCast_zmod_val]

theorem nsmul_multiple (k : Nat) (t : ZMod order) : k • multiple t = multiple (k * t) := by
  rw [multiple, multiple, ← mul_nsmul', nsmul_G_eq_iff]
  push_cast
  rw [ZMod.natCast_zmod_val, ZMod.natCast_zmod_val]

theorem multiple_inj {s t : ZMod order} : multiple s = multiple t ↔ s = t := by
  rw [multiple, multiple, nsmul_G_eq_iff, ZMod.natCast_zmod_val, ZMod.natCast_zmod_val]

theorem multiple_eq_zero_iff {t : ZMod order} : multiple t = 0 ↔ t = 0 := by
  rw [multiple, nsmul_G_eq_zero_iff, ZMod.natCast_zmod_val]

theorem multiple_neg (t : ZMod order) : multiple (-t) = -multiple t := by
  refine eq_neg_of_add_eq_zero_left ?_
  rw [← multiple_add, neg_add_cancel, multiple_eq_zero_iff]

/-! ## Public points -/

theorem publicPoint_eq (secret : Nat) :
    publicPoint secret = .ok (.ofGroup (multiple secret)) := by
  rw [publicPoint, scalarMul_generator, multiple_natCast]

/-- A secret in range is not zero modulo the order. -/
theorem cast_ne_zero {k : Nat} (positive : 0 < k) (below : k < order) : (k : ZMod order) ≠ 0 := by
  rw [ne_eq, ZMod.natCast_eq_zero_iff]
  exact Nat.not_dvd_of_pos_of_lt positive below

theorem cast_order_sub {k : Nat} (k_lt : k < order) :
    ((order - k : Nat) : ZMod order) = -(k : ZMod order) := by
  rw [Nat.cast_sub k_lt.le, ZMod.natCast_self, zero_sub]

theorem isOn_ofGroup (P : Group) : (Point.ofGroup P).IsOn curve := by
  rw [curve_eq]
  exact Point.isOn_ofGroup P

theorem publicPoint_eq_iff {j k : Nat} :
    publicPoint j = publicPoint k ↔ j ≡ k [MOD order] := by
  rw [publicPoint_eq, publicPoint_eq, Except.ok.injEq, Point.ofGroup_injective.eq_iff, multiple_inj,
    ZMod.natCast_eq_natCast_iff]

theorem publicPoint_eq_infinity_iff {k : Nat} :
    publicPoint k = .ok (.infinity curve) ↔ order ∣ k := by
  rw [publicPoint_eq, curve_eq, Except.ok.injEq, ← Point.ofGroup_zero, Point.ofGroup_injective.eq_iff,
    multiple_eq_zero_iff, ZMod.natCast_eq_zero_iff]

/-- The derivation of public points is an injective homomorphism from the integers modulo the order,
and it never fails. -/
theorem publicPoint_homomorphism (j k : Nat) :
    ∃ P Q, publicPoint j = .ok P ∧ publicPoint k = .ok Q ∧ P.IsOn curve ∧ Q.IsOn curve ∧
      P.add Q = publicPoint (j + k) ∧
      scalarMul P k = publicPoint (j * k) ∧
      publicPoint (order - j % order) = .ok P.negate ∧
      (P = Q ↔ j ≡ k [MOD order]) ∧
      (P = .infinity curve ↔ order ∣ j) := by
  refine ⟨_, _, publicPoint_eq j, publicPoint_eq k, isOn_ofGroup _, isOn_ofGroup _, ?_, ?_, ?_, ?_, ?_⟩
  · rw [Point.add_ofGroup fieldPrime_odd, ← multiple_add, publicPoint_eq, Nat.cast_add]
  · rw [scalarMul_ofGroup, nsmul_multiple, ZMod.natCast_mod, publicPoint_eq, Nat.cast_mul, mul_comm]
  · rw [publicPoint_eq, cast_order_sub (Nat.mod_lt j (by decide)), ZMod.natCast_mod, multiple_neg,
      Point.negate_ofGroup]
  · rw [← publicPoint_eq_iff, publicPoint_eq, publicPoint_eq, Except.ok.injEq]
  · rw [← publicPoint_eq_infinity_iff, publicPoint_eq, Except.ok.injEq]

/-! ## Verification -/

/-- The point is affine, and its first coordinate is `r` modulo the order. -/
def HasAbscissa (R : Group) (r : Nat) : Prop :=
  ∃ x y h, R = .some x y h ∧ x.val % order = r

end Secp256k1

open Secp256k1 (order multiple HasAbscissa)

theorem inverseModOrder_eq (k : Nat) : (inverseModOrder k : ZMod order) = (k : ZMod order)⁻¹ := by
  rw [inverseModOrder, powMod_eq, ZMod.natCast_mod, Nat.cast_pow]
  by_cases zero : (k : ZMod order) = 0
  · rw [zero, zero_pow (by decide), inv_zero]
  · exact FieldElement.pow_sub_two zero

theorem combination_multiple (d : ZMod order) (u v : Nat) :
    combination (.ofGroup (multiple d)) u v = .ok (.ofGroup (multiple (u + v * d))) := by
  have scaled : Secp256k1.scalarMul (.ofGroup (multiple d)) v = .ok (.ofGroup (multiple (v * d))) := by
    rw [Secp256k1.scalarMul_ofGroup, Secp256k1.nsmul_multiple, ZMod.natCast_mod]
  rw [combination, Secp256k1.scalarMul_generator, ok_bind, scaled, ok_bind,
    Point.add_ofGroup Secp256k1.fieldPrime_odd, ← Secp256k1.multiple_natCast, Secp256k1.multiple_add]

/-- The factor of the generator that a signature stands for. -/
theorem factor_eq (d : ZMod order) (r s z : Nat) :
    ((z * inverseModOrder s % order : Nat) : ZMod order) +
        ((r * inverseModOrder s % order : Nat) : ZMod order) * d = (z + r * d) / s := by
  rw [ZMod.natCast_mod, ZMod.natCast_mod]
  push_cast
  rw [inverseModOrder_eq, div_eq_mul_inv]
  ring

/-- Verification against the public point of a secret gives a verdict, and accepts by the first
coordinate of one multiple of the generator. -/
theorem Point.verify_multiple {d : ZMod order} (nonzero : d ≠ 0) (sig : Signature) (z : Nat) :
    ((ofGroup (multiple d)).verify sig z = .ok .accepted ↔
        sig.InRange ∧ HasAbscissa (multiple ((z + sig.r * d) / sig.s)) sig.r) ∧
      ((ofGroup (multiple d)).verify sig z = .ok .accepted ∨
        (ofGroup (multiple d)).verify sig z = .ok .refused) := by
  have affine : (ofGroup (multiple d)).isInfinity = false := by
    rw [← Bool.not_eq_true, isInfinity_ofGroup, Secp256k1.multiple_eq_zero_iff]
    exact nonzero
  unfold verify
  by_cases range : sig.InRange
  · rw [if_pos ⟨range, affine⟩]
    dsimp only
    rw [combination_multiple, factor_eq]
    cases total : multiple ((z + sig.r * d) / sig.s) with
    | zero =>
      refine ⟨⟨fun h => (nomatch h), ?_⟩, Or.inr rfl⟩
      rintro ⟨-, x, y, h, same, -⟩
      cases same
    | some x y h =>
      by_cases same : x.val % order = sig.r
      · refine ⟨⟨fun _ => ⟨range, x, y, h, rfl, same⟩, fun _ => ?_⟩, Or.inl ?_⟩ <;>
          exact congrArg Except.ok (if_pos same)
      · have refused : (Except.ok (if x.val % order = sig.r then Verdict.accepted else .refused) :
            Except Misuse Verdict) = .ok .refused := congrArg Except.ok (if_neg same)
        refine ⟨⟨fun h => ?_, ?_⟩, Or.inr refused⟩
        · cases refused.symm.trans h
        · rintro ⟨-, x', y', h', eq, same'⟩
          cases eq
          exact absurd same' same
  · rw [if_neg (fun h => range h.1)]
    exact ⟨⟨fun h => (nomatch h), fun h => absurd h.1 range⟩, Or.inr rfl⟩

end CoinScript
