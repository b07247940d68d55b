import CoinScript.Proofs.Sequencing
import Mathlib.Data.ZMod.Basic
import Mathlib.FieldTheory.Finite.Basic

/-!
# Field elements as residue classes

The elements of one modulus are the residue classes of that modulus, written
by their least representative. Under this reading the operators are the ring
operations and never refuse. Over a prime modulus the power `p - 2` is the
inverse and the checked quotient is the quotient of the field.
-/

namespace CoinScript

/-- Repeated squaring computes the power. -/
theorem powMod_eq (b e m : Nat) : powMod b e m = b ^ e % m := by
  fun_induction powMod b e m with
  | case1 => simp
  | case2 e nonzero root square odd ih =>
    have squared : square ≡ b ^ (e / 2) * b ^ (e / 2) [MOD m] := by
      simp only [square, root, ih, Nat.ModEq, ← Nat.mul_mod, Nat.mod_mod]
    have expanded : b ^ e = b ^ (e / 2) * b ^ (e / 2) * b := by
      rw [← pow_add, ← pow_succ]
      congr 1
      omega
    rw [expanded]
    exact squared.mul_right b
  | case3 e nonzero root square even ih =>
    have expanded : b ^ e = b ^ (e / 2) * b ^ (e / 2) := by
      rw [← pow_add]
      congr 1
      omega
    simp only [square, root, ih, expanded, ← Nat.mul_mod]

namespace FieldElement

theorem eq_iff {a b : FieldElement} : a = b ↔ a.num = b.num ∧ a.modulus = b.modulus := by
  cases a
  cases b
  simp

/-- A number is accepted as an element exactly when it can be one. -/
theorem ofNat_eq_ok_iff {num m : Nat} {a : FieldElement} :
    ofNat num m = .ok a ↔ a.num = num ∧ a.modulus = m := by
  unfold ofNat
  constructor
  · intro built
    split at built
    · cases built
    split at built
    · cases built
      exact ⟨rfl, rfl⟩
    · cases built
  · rintro ⟨rfl, rfl⟩
    rw [dif_neg (Nat.not_lt_of_le a.two_le), dif_pos a.num_lt]

section Ring

variable {m : Nat} [Fact (1 < m)]

local instance : NeZero m := ⟨by have := Fact.out (p := 1 < m); omega⟩

/-- The field element of a residue class. -/
def ofZMod (x : ZMod m) : FieldElement where
  num := x.val
  modulus := m
  two_le := Fact.out (p := 1 < m)
  num_lt := ZMod.val_lt x

@[simp] theorem num_ofZMod (x : ZMod m) : (ofZMod x).num = x.val := rfl

@[simp] theorem modulus_ofZMod (x : ZMod m) : (ofZMod x).modulus = m := rfl

theorem ofZMod_injective : Function.Injective (ofZMod (m := m)) := by
  intro x y same
  exact ZMod.val_injective m (eq_iff.mp same).1

@[simp] theorem ofZMod_inj {x y : ZMod m} : ofZMod x = ofZMod y ↔ x = y :=
  ofZMod_injective.eq_iff

/-- Every element of the modulus is a residue class. -/
theorem eq_ofZMod {a : FieldElement} (modulus : a.modulus = m) : a = ofZMod (a.num : ZMod m) := by
  subst modulus
  exact eq_iff.mpr ⟨(ZMod.val_natCast_of_lt a.num_lt).symm, rfl⟩

@[simp] theorem residue_ofZMod (x : ZMod m) (n : Nat) : (ofZMod x).residue n = ofZMod (n : ZMod m) :=
  eq_iff.mpr ⟨(ZMod.val_natCast m n).symm, rfl⟩

@[simp] theorem num_eq_zero_iff {x : ZMod m} : (ofZMod x).num = 0 ↔ x = 0 :=
  ZMod.val_eq_zero x

@[simp] theorem add_ofZMod (x y : ZMod m) : (ofZMod x).add (ofZMod y) = .ok (ofZMod (x + y)) := by
  simp [add, combine]

@[simp] theorem sub_ofZMod (x y : ZMod m) : (ofZMod x).sub (ofZMod y) = .ok (ofZMod (x - y)) := by
  have below : y.val ≤ x.val + m := (ZMod.val_lt y).le.trans (Nat.le_add_left m x.val)
  simp [sub, combine, Nat.cast_sub below]

@[simp] theorem mul_ofZMod (x y : ZMod m) : (ofZMod x).mul (ofZMod y) = .ok (ofZMod (x * y)) := by
  simp [mul, combine]

@[simp] theorem neg_ofZMod (x : ZMod m) : (ofZMod x).neg = ofZMod (-x) := by
  simp [neg, Nat.cast_sub (ZMod.val_lt x).le]

@[simp] theorem powNat_ofZMod (x : ZMod m) (e : Nat) : (ofZMod x).powNat e = ofZMod (x ^ e) := by
  simp [powNat, powMod_eq]

@[simp] theorem sqrt_ofZMod (x : ZMod m) : (ofZMod x).sqrt = ofZMod (x ^ ((m + 1) / 4)) := by
  simp [sqrt]

end Ring

section Field

variable {p : Nat} [Fact p.Prime]

theorem pow_sub_two {x : ZMod p} (nonzero : x ≠ 0) : x ^ (p - 2) = x⁻¹ := by
  have two_le := (Fact.out (p := p.Prime)).two_le
  have split : p - 1 = p - 2 + 1 := by omega
  have fermat := ZMod.pow_card_sub_one_eq_one nonzero
  rw [split, pow_succ] at fermat
  exact eq_inv_of_mul_eq_one_left fermat

theorem inverse_ofZMod {x : ZMod p} (nonzero : x ≠ 0) :
    (ofZMod x).inverse = .ok (ofZMod x⁻¹) := by
  simp [inverse, nonzero, pow_sub_two nonzero]

theorem checkedDiv_ofZMod (x : ZMod p) {y : ZMod p} (nonzero : y ≠ 0) :
    (ofZMod x).checkedDiv (ofZMod y) = .ok (ofZMod (x / y)) := by
  simp [checkedDiv, inverse_ofZMod nonzero, div_eq_mul_inv, pure, Except.pure]

/-- Of a square the power `(p + 1) / 4` is one of its two roots. -/
theorem pow_quarter_sq (quarter : p % 4 = 3) (y : ZMod p) :
    (y * y) ^ ((p + 1) / 4) = y ∨ (y * y) ^ ((p + 1) / 4) = -y := by
  refine mul_self_eq_mul_self_iff.mp ?_
  have exponent : (p + 1) / 4 + (p + 1) / 4 + ((p + 1) / 4 + (p + 1) / 4) = p + 1 := by omega
  calc (y * y) ^ ((p + 1) / 4) * (y * y) ^ ((p + 1) / 4)
    _ = y ^ (p + 1) := by rw [mul_pow, ← pow_add, ← pow_add, exponent]
    _ = y * y := by rw [pow_succ, ZMod.pow_card]

/-- Over an odd modulus the two roots of a square differ in parity, unless both are zero. -/
theorem isEven_neg (odd : p % 2 = 1) {y : ZMod p} (nonzero : y ≠ 0) :
    (ofZMod (-y)).isEven = !(ofZMod y).isEven := by
  have value : (-y).val = p - y.val := by
    rw [ZMod.neg_val, if_neg nonzero]
  have below : y.val < p := ZMod.val_lt y
  rw [Bool.eq_not_iff]
  simp only [isEven, num_ofZMod, value, ne_eq, beq_eq_beq]
  omega

end Field

end FieldElement

end CoinScript
