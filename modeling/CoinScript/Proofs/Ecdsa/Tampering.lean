import CoinScript.Proofs.Ecdsa.Signing

/-!
# What else a valid signature is valid for

A first coordinate belongs to a point and its reflection. If `r` is so large
that only one coordinate has it as its residue, a valid `(r, s)` therefore
fixes the multiple of the generator it stands for up to the sign. It is then
valid for one other number besides `z`, and `r` and `z` leave one other value
besides `s`.
-/

namespace CoinScript

open WeierstrassCurve

namespace Secp256k1

/-- The least number that is the residue of a single coordinate. -/
def coordinateGap : Nat := fieldPrime - order

theorem val_eq_of_mod_eq {x : ZMod fieldPrime} {r : Nat} (large : coordinateGap ≤ r)
    (residue : x.val % order = r) : x.val = r := by
  have below : x.val < fieldPrime := ZMod.val_lt x
  have room : fieldPrime < 2 * order := fieldPrime_lt_two_order
  unfold coordinateGap at large
  by_cases small : x.val < order
  · rwa [Nat.mod_eq_of_lt small] at residue
  · have wrapped : x.val % order = x.val - order := by
      rw [Nat.mod_eq_sub_mod (by omega), Nat.mod_eq_of_lt (by omega)]
    omega

theorem HasAbscissa.neg {R : Group} {r : Nat} (h : HasAbscissa R r) : HasAbscissa (-R) r := by
  obtain ⟨x, y, nonsingular, rfl, residue⟩ := h
  exact ⟨x, _, _, Affine.Point.neg_some _, residue⟩

/-- Points with the same first coordinate are equal or opposite. -/
theorem eq_or_eq_neg_of_hasAbscissa {R S : Group} {r : Nat} (large : coordinateGap ≤ r)
    (first : HasAbscissa R r) (second : HasAbscissa S r) : R = S ∨ R = -S := by
  obtain ⟨x₁, y₁, h₁, rfl, residue₁⟩ := first
  obtain ⟨x₂, y₂, h₂, rfl, residue₂⟩ := second
  have same : x₁ = x₂ := ZMod.val_injective fieldPrime
    ((val_eq_of_mod_eq large residue₁).trans (val_eq_of_mod_eq large residue₂).symm)
  rcases Affine.Y_eq_of_X_eq h₁.1 h₂.1 same with equal | opposite
  · exact Or.inl (Point.some_congr same equal)
  · right
    rw [Affine.Point.neg_some]
    exact Point.some_congr same opposite

theorem hasAbscissa_multiple_iff {s t : ZMod order} {r : Nat} (large : coordinateGap ≤ r)
    (known : HasAbscissa (multiple t) r) : HasAbscissa (multiple s) r ↔ s = t ∨ s = -t := by
  constructor
  · intro h
    rcases eq_or_eq_neg_of_hasAbscissa large h known with equal | opposite
    · exact Or.inl (multiple_inj.mp equal)
    · rw [← multiple_neg] at opposite
      exact Or.inr (multiple_inj.mp opposite)
  · rintro (rfl | rfl)
    · exact known
    · rw [multiple_neg]
      exact known.neg

theorem natCast_inj {j k : Nat} (j_lt : j < order) (k_lt : k < order) :
    (j : ZMod order) = k ↔ j = k := by
  rw [ZMod.natCast_eq_natCast_iff', Nat.mod_eq_of_lt j_lt, Nat.mod_eq_of_lt k_lt]

/-- In range, the opposite of a residue is its difference from the order. -/
theorem natCast_eq_neg_iff {j k : Nat} (j_lt : j < order) (positive : 0 < k) (k_lt : k < order) :
    (j : ZMod order) = -k ↔ j = order - k := by
  rw [← cast_order_sub k_lt, natCast_inj j_lt (Nat.sub_lt (by omega) positive)]

end Secp256k1

open Secp256k1 (order multiple HasAbscissa coordinateGap)

/-- A valid signature is valid for exactly one other number, and exactly one other `s` makes a
valid signature on the same number. -/
theorem Point.verify_valid_iff {secret : Nat} (positive : 0 < secret) (below : secret < order)
    {p : Point} (derived : Secp256k1.publicPoint secret = .ok p) {r s z : Nat}
    (large : Secp256k1.fieldPrime - order ≤ r)
    (valid : p.verify ⟨r, s⟩ z = .ok .accepted) :
    (∀ z' : Nat, p.verify ⟨r, s⟩ z' = .ok .accepted ↔
        (z' : ZMod order) = z ∨ (z' : ZMod order) = -z - 2 * r * secret) ∧
      ∀ s' : Nat, p.verify ⟨r, s'⟩ z = .ok .accepted ↔ s' = s ∨ s' = order - s := by
  rw [Secp256k1.publicPoint_eq, Except.ok.injEq] at derived
  subst derived
  have nonzero := Secp256k1.cast_ne_zero positive below
  have accepted_iff (s z : Nat) := (verify_multiple nonzero ⟨r, s⟩ z).1
  simp only [accepted_iff] at valid ⊢
  obtain ⟨range, known⟩ := valid
  have s_ne_zero := Secp256k1.cast_ne_zero range.2.1 range.2.2
  -- The multiple is an affine point, so its factor does not vanish and can be cancelled below.
  obtain ⟨top, -⟩ := div_ne_zero_iff.mp
    (show (z + r * secret : ZMod order) / s ≠ 0 by
      obtain ⟨x, y, h, affine, -⟩ := known
      rw [ne_eq, ← Secp256k1.multiple_eq_zero_iff, affine]
      exact Affine.Point.some_ne_zero h)
  constructor
  · intro z'
    rw [Secp256k1.hasAbscissa_multiple_iff large known, ← neg_div, div_left_inj' s_ne_zero,
      div_left_inj' s_ne_zero]
    have negated : (z' + r * secret : ZMod order) = -(z + r * secret) ↔
        (z' : ZMod order) = -z - 2 * r * secret := by
      constructor <;> intro h <;> linear_combination h
    rw [add_left_inj, negated]
    exact and_iff_right range
  · intro s'
    have quotient_inj (a b : ZMod order) :
        (z + r * secret : ZMod order) / a = (z + r * secret) / b ↔ a = b := by
      rw [div_eq_mul_inv, div_eq_mul_inv, mul_right_inj' top, inv_inj]
    rw [Secp256k1.hasAbscissa_multiple_iff large known, ← div_neg, quotient_inj, quotient_inj]
    constructor
    · rintro ⟨range', same⟩
      rwa [Secp256k1.natCast_inj range'.2.2 range.2.2,
        Secp256k1.natCast_eq_neg_iff range'.2.2 range.2.1 range.2.2] at same
    · rintro (rfl | rfl)
      · exact ⟨range, Or.inl rfl⟩
      · have below : s < order := range.2.2
        have above : 0 < s := range.2.1
        exact ⟨⟨range.1, Nat.sub_pos_of_lt below, Nat.sub_lt (above.trans below) above⟩,
          Or.inr (Secp256k1.cast_order_sub below)⟩

/-- The signature of the secret one on the number one, with the nonce one, is valid for one other
number and with one other `s`. -/
theorem Point.verify_valid_iff_one :
    ∃ p, Secp256k1.publicPoint 1 = .ok p ∧
      p.verify ⟨Secp256k1.generatorX, Secp256k1.generatorX + 1⟩ 1 = .ok .accepted ∧
      (∀ z' : Nat,
        p.verify ⟨Secp256k1.generatorX, Secp256k1.generatorX + 1⟩ z' = .ok .accepted ↔
          (z' : ZMod order) = (1 : Nat) ∨
            (z' : ZMod order) = -(1 : Nat) - 2 * Secp256k1.generatorX * (1 : Nat)) ∧
      ∀ s' : Nat, p.verify ⟨Secp256k1.generatorX, s'⟩ 1 = .ok .accepted ↔
        s' = Secp256k1.generatorX + 1 ∨ s' = order - (Secp256k1.generatorX + 1) := by
  obtain ⟨key, -, one, derived⟩ := @PrivateKey.exists_ofSecret 1 (by decide) (by decide)
  have valid := PrivateKey.verify_of_signWith (PrivateKey.signWith_one one)
  exact ⟨key.publicPoint, derived, valid,
    Point.verify_valid_iff (by decide) (by decide) derived (by decide) valid⟩

end CoinScript
