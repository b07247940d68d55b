import CoinScript.Proofs.Field.Residues

/-!
# Powers with integer exponents

An integer exponent is reduced modulo `p - 1` before the power is taken. Over a
prime modulus no power of a nonzero element changes by that, since its power
`p - 1` is one: negative exponents give the powers of the inverse, and sums of
exponents give products. Zero is the exception. A reduced exponent of zero
makes its power one, which the power of a natural exponent, taken as it is,
only does for the exponent zero itself.
-/

namespace CoinScript.FieldElement

section Reduction

variable {p : Nat} [Fact p.Prime]

variable (p) in
theorem order_ne_zero : ((p - 1 : Nat) : Int) ≠ 0 := by
  have two_le := (Fact.out (p := p.Prime)).two_le
  omega

/-- Reducing the exponent takes away a multiple of `p - 1`, and with it a power of one. -/
theorem pow_toNat_emod {x : ZMod p} (nonzero : x ≠ 0) (e : Int) :
    x ^ (e % ((p - 1 : Nat) : Int)).toNat = x ^ e := by
  have fermat : x ^ ((p - 1 : Nat) : Int) = 1 := by
    rw [zpow_natCast, ZMod.pow_card_sub_one_eq_one nonzero]
  calc x ^ (e % ((p - 1 : Nat) : Int)).toNat
    _ = x ^ (e % ((p - 1 : Nat) : Int)) := by
      rw [← zpow_natCast, Int.toNat_of_nonneg (Int.emod_nonneg e (order_ne_zero p))]
    _ = x ^ (e % ((p - 1 : Nat) : Int)) *
        (x ^ ((p - 1 : Nat) : Int)) ^ (e / ((p - 1 : Nat) : Int)) := by
      rw [fermat, one_zpow, mul_one]
    _ = x ^ e := by
      rw [← zpow_mul, ← zpow_add₀ nonzero, Int.emod_add_mul_ediv]

theorem pow_ofZMod {x : ZMod p} (nonzero : x ≠ 0) (e : Int) :
    (ofZMod x).pow e = ofZMod (x ^ e) := by
  rw [pow, powNat_ofZMod, modulus_ofZMod, pow_toNat_emod nonzero]

/-- What is left of the exponent decides about a power of zero. -/
theorem zero_pow_ofZMod (e : Int) :
    (ofZMod (0 : ZMod p)).pow e = ofZMod (if ((p - 1 : Nat) : Int) ∣ e then (1 : ZMod p) else 0) := by
  have left : (e % ((p - 1 : Nat) : Int)).toNat = 0 ↔ ((p - 1 : Nat) : Int) ∣ e := by
    rw [Int.toNat_eq_zero, Int.dvd_iff_emod_eq_zero]
    exact ⟨fun le => le_antisymm le (Int.emod_nonneg e (order_ne_zero p)), fun none => none.le⟩
  rw [pow, powNat_ofZMod, modulus_ofZMod, zero_pow_eq]
  simp only [left]

/-- A natural exponent need not be reduced, but for zero to a positive multiple of `p - 1`. -/
theorem pow_ne_powNat_iff {x : ZMod p} {k : Nat} :
    (ofZMod x).pow k ≠ (ofZMod x).powNat k ↔ x = 0 ∧ 0 < k ∧ p - 1 ∣ k := by
  by_cases zero : x = 0
  · subst zero
    simp only [zero_pow_ofZMod, powNat_ofZMod, zero_pow_eq, Int.natCast_dvd_natCast, ne_eq, ofZMod_inj]
    rcases k.eq_zero_or_pos with rfl | positive
    · simp
    · simp [positive, positive.ne']
  · rw [pow_ofZMod zero, powNat_ofZMod, zpow_natCast]
    exact iff_of_false (fun differ => differ rfl) fun ⟨isZero, _⟩ => zero isZero

end Reduction

/-- Over a prime modulus the powers of a nonzero element are those of the field, for negative
exponents the powers of its inverse. The powers of zero are one or zero, and they alone depend on
whether the exponent was reduced. -/
theorem pow_reduced {p : Nat} [Fact p.Prime] {a : FieldElement} (field : a.modulus = p) :
    (a.num ≠ 0 →
      (∀ e : Int, a.pow e = ofZMod ((a.num : ZMod p) ^ e)) ∧
      (∃ i, a.inverse = .ok i ∧ ∀ k : Nat, a.pow (-k) = i.powNat k) ∧
      (∀ e f : Int, (a.pow e).mul (a.pow f) = .ok (a.pow (e + f))) ∧
      ∀ k : Nat, a.pow k = a.powNat k) ∧
    (a.num = 0 → ∀ e : Int, a.pow e = if ((p - 1 : Nat) : Int) ∣ e then a.one else a.zero) ∧
    ∀ k : Nat, a.pow k ≠ a.powNat k ↔ a.num = 0 ∧ 0 < k ∧ p - 1 ∣ k := by
  obtain ⟨x, rfl⟩ : ∃ x : ZMod p, a = ofZMod x := ⟨_, eq_ofZMod field⟩
  have same : ((ofZMod x).num : ZMod p) = x := ZMod.natCast_zmod_val x
  simp only [same, ne_eq, num_eq_zero_iff]
  refine ⟨fun nonzero => ⟨pow_ofZMod nonzero, ⟨ofZMod x⁻¹, inverse_ofZMod nonzero, fun k => ?_⟩,
    fun e f => ?_, fun k => ?_⟩, ?_, fun k => pow_ne_powNat_iff⟩
  · rw [pow_ofZMod nonzero, powNat_ofZMod, zpow_neg, zpow_natCast, inv_pow]
  · rw [pow_ofZMod nonzero, pow_ofZMod nonzero, pow_ofZMod nonzero, mul_ofZMod, zpow_add₀ nonzero]
  · rw [pow_ofZMod nonzero, powNat_ofZMod, zpow_natCast]
  · rintro rfl e
    rw [zero_pow_ofZMod]
    split <;> simp [one, zero]

section Example

def threeModEleven : FieldElement :=
  ⟨3, 11, Nat.le_of_ble_eq_true rfl, Nat.le_of_ble_eq_true rfl⟩

def zeroModEleven : FieldElement :=
  ⟨0, 11, Nat.le_of_ble_eq_true rfl, Nat.le_of_ble_eq_true rfl⟩

/-- Modulo eleven the exponents `-2` and `3` add up to `1`, and the tenth power of zero is one. -/
theorem pow_reduced_eleven :
    Nat.Prime 11 ∧ threeModEleven.modulus = 11 ∧ threeModEleven.num ≠ 0 ∧
      (threeModEleven.pow (-2)).mul (threeModEleven.pow 3) = .ok (threeModEleven.pow 1) ∧
      (∃ i, threeModEleven.inverse = .ok i ∧ threeModEleven.pow (-2) = i.powNat 2) ∧
      zeroModEleven.modulus = 11 ∧ zeroModEleven.num = 0 ∧
      zeroModEleven.pow (-10) = zeroModEleven.one ∧ zeroModEleven.pow 5 = zeroModEleven.zero ∧
      zeroModEleven.pow 10 ≠ zeroModEleven.powNat 10 := by
  have prime : Nat.Prime 11 := by decide
  have : Fact (Nat.Prime 11) := ⟨prime⟩
  have field : threeModEleven.modulus = 11 := rfl
  have field' : zeroModEleven.modulus = 11 := rfl
  have nonzero : threeModEleven.num ≠ 0 := by decide
  obtain ⟨laws, -, -⟩ := pow_reduced field
  obtain ⟨-, ⟨i, inverted, negative⟩, sum, -⟩ := laws nonzero
  obtain ⟨-, ofZero, differ⟩ := pow_reduced field'
  have multiple : zeroModEleven.pow (-10) = zeroModEleven.one :=
    (ofZero rfl (-10)).trans (if_pos (by decide))
  have other : zeroModEleven.pow 5 = zeroModEleven.zero :=
    (ofZero rfl 5).trans (if_neg (by decide))
  exact ⟨prime, field, nonzero, sum (-2) 3, ⟨i, inverted, negative 2⟩, field', rfl, multiple, other,
    (differ 10).mpr ⟨rfl, by decide, by decide⟩⟩

end Example

end CoinScript.FieldElement
