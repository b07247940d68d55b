import CoinScript.Proofs.Curve.Jacobian
import CoinScript.Proofs.Curve.Primality

/-!
# The group that the generator spans

The points of secp256k1 are a commutative group, in which the generator has the
prime number `order` as its order. Two multiples of the generator are therefore
equal exactly when their factors are congruent modulo the order, and reducing a
factor first, as all multiples of the library do, changes nothing.
-/

namespace CoinScript.Secp256k1

open WeierstrassCurve

/-- The group of the points of secp256k1. -/
abbrev Group : Type := (weierstrass (0 : ZMod fieldPrime) 7).Point

theorem fieldPrime_odd : fieldPrime ≠ 2 := by decide

theorem residue_eq (n : Nat) : residue n = .ofZMod (n : ZMod fieldPrime) :=
  FieldElement.eq_iff.mpr ⟨(ZMod.val_natCast fieldPrime n).symm, rfl⟩

theorem curve_eq : curve = Curve.ofZMod (0 : ZMod fieldPrime) 7 := by
  simp only [curve, Curve.ofZMod, residue_eq, Nat.cast_zero, Nat.cast_ofNat]

theorem nonsingular {x y : ZMod fieldPrime} (h : (weierstrass 0 7).Equation x y) :
    (weierstrass 0 7).Nonsingular x y := by
  refine nonsingular_weierstrass fieldPrime_odd ?_ h
  have discriminant : 4 * (0 : ZMod fieldPrime) ^ 3 + 27 * 7 ^ 2 = (1323 : Nat) := by
    push_cast
    norm_num
  rw [discriminant, ne_eq, ZMod.natCast_eq_zero_iff]
  decide

def generatorX : Nat :=
  0x79be667ef9dcbbac55a06295ce870b07029bfcdb2dce28d959f2815b16f81798

def generatorY : Nat :=
  0x483ada7726a3c4655da4fbfc0e1108a8fd17b448a68554199c47d08ffb10d4b8

theorem generator_nonsingular :
    (weierstrass (0 : ZMod fieldPrime) 7).Nonsingular generatorX generatorY := by
  apply nonsingular
  rw [equation_weierstrass]
  have squares : ((generatorY * generatorY : Nat) : ZMod fieldPrime) =
      (generatorX * generatorX * generatorX + 7 : Nat) := by
    rw [ZMod.natCast_eq_natCast_iff']
    decide +kernel
  push_cast at squares
  rw [squares, zero_mul, zero_add]

/-- The generator as an element of the group. -/
def G : Group := .some _ _ generator_nonsingular

theorem generator_eq : generator = .ofGroup G := by
  change Point.affine (residue generatorX) (residue generatorY) curve = _
  rw [residue_eq, residue_eq, curve_eq]
  rfl

/-- The multiple of the generator before the one that vanishes. -/
def lastMultiple : Jacobian :=
  .multiple fieldPrime generatorX generatorY (order - 1)

/-- The last multiple is the reflected generator. -/
theorem lastMultiple_checked :
    lastMultiple.z % fieldPrime ≠ 0 ∧
      lastMultiple.x % fieldPrime = generatorX * lastMultiple.z ^ 2 % fieldPrime ∧
      lastMultiple.y % fieldPrime = -generatorY * lastMultiple.z ^ 3 % fieldPrime := by
  decide +kernel

theorem pred_order_nsmul_G : (order - 1) • G = -G := by
  obtain ⟨z_checked, x_checked, y_checked⟩ := lastMultiple_checked
  have proper : ((lastMultiple.z : Int) : ZMod fieldPrime) ≠ 0 := by
    rwa [ne_eq, ZMod.intCast_zmod_eq_zero_iff_dvd, Int.dvd_iff_emod_eq_zero]
  rw [← ZMod.intCast_eq_intCast_iff'] at x_checked y_checked
  push_cast at x_checked y_checked
  obtain ⟨x, y, h, denoted, z_ne_zero, x_eq, y_eq⟩ :=
    Jacobian.denotes_multiple generator_nonsingular (order - 1) (by decide) proper
  change ((lastMultiple.x : Int) : ZMod fieldPrime) = x * (lastMultiple.z : ZMod fieldPrime) ^ 2
    at x_eq
  change ((lastMultiple.y : Int) : ZMod fieldPrime) = y * (lastMultiple.z : ZMod fieldPrime) ^ 3
    at y_eq
  have same_x : x = generatorX :=
    mul_right_cancel₀ (pow_ne_zero 2 proper) (x_eq.symm.trans x_checked)
  have same_y : y = -generatorY :=
    mul_right_cancel₀ (pow_ne_zero 3 proper) (y_eq.symm.trans y_checked)
  change (order - 1) • G = _ at denoted
  rw [denoted, G, Affine.Point.neg_some]
  exact Point.some_congr same_x (same_y.trans (Point.negY_weierstrass _ _).symm)

theorem order_nsmul_G : order • G = 0 := by
  have successor : order = order - 1 + 1 := by decide
  rw [successor, succ_nsmul, pred_order_nsmul_G, neg_add_cancel]

theorem addOrderOf_G : addOrderOf G = order :=
  addOrderOf_eq_prime order_nsmul_G (Affine.Point.some_ne_zero _)

theorem nsmul_G_eq_iff {j k : Nat} : j • G = k • G ↔ (j : ZMod order) = k := by
  rw [nsmul_eq_nsmul_iff_modEq, addOrderOf_G, ZMod.natCast_eq_natCast_iff]

theorem nsmul_G_eq_zero_iff {k : Nat} : k • G = 0 ↔ (k : ZMod order) = 0 := by
  rw [← zero_nsmul G, nsmul_G_eq_iff, Nat.cast_zero]

theorem scalarMul_ofGroup (P : Group) (k : Nat) :
    scalarMul (.ofGroup P) k = .ok (.ofGroup ((k % order) • P)) :=
  Point.scalarMul_ofGroup fieldPrime_odd P (k % order)

theorem scalarMul_generator (k : Nat) : scalarMul generator k = .ok (.ofGroup (k • G)) := by
  have reduced : (k % order) • G = k • G :=
    nsmul_G_eq_iff.mpr (ZMod.natCast_mod k order)
  rw [generator_eq, scalarMul_ofGroup, reduced]

end CoinScript.Secp256k1
