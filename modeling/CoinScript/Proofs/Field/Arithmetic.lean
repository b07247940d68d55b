import CoinScript.Proofs.Field.Residues
import CoinScript.Proofs.Guarded.Basic

/-!
# The arithmetic of a field

Over any modulus the four ring operators give the residue that the ring of
residues has for them, below the modulus again, and no difference on the way
is negative: this is what the bound of an element is for. Over a prime modulus
the quotients and the inverse are those of the field, and zero is the only
divisor they refuse.
-/

namespace CoinScript.FieldElement

open Guarded

/-! ## Operators on plain numbers -/

section Guarded

variable {ε : Type}

theorem guardedCombine_eq {operator : FieldOperator} {f : Nat → Nat → Nat → Guarded ε Nat}
    {g : FieldElement → FieldElement → FieldElement} {a b : FieldElement}
    (same : a.modulus = b.modulus → f a.modulus a.num b.num = .ok (g a b).num) :
    guardedCombine operator f a b = operate ((combine operator g a b).map num) := by
  unfold guardedCombine combine
  by_cases field : a.modulus = b.modulus
  · rw [if_pos field, if_pos field, same field]
    rfl
  · rw [if_neg field, if_neg field]
    rfl

theorem guardedAdd_eq (a b : FieldElement) :
    (a.guardedAdd b : Guarded ε Nat) = operate ((a.add b).map num) :=
  guardedCombine_eq fun _ => rfl

/-- The second number is less than the modulus, which is added first. -/
theorem guardedSub_eq (a b : FieldElement) :
    (a.guardedSub b : Guarded ε Nat) = operate ((a.sub b).map num) := by
  refine guardedCombine_eq fun field => ?_
  have enough : b.num ≤ a.num + a.modulus := by
    have := b.num_lt
    omega
  rw [difference_of_le enough]
  rfl

theorem guardedMul_eq (a b : FieldElement) :
    (a.guardedMul b : Guarded ε Nat) = operate ((a.mul b).map num) :=
  guardedCombine_eq fun _ => rfl

theorem guardedNeg_eq (a : FieldElement) : (a.guardedNeg : Guarded ε Nat) = .ok a.neg.num := by
  have below := a.num_lt
  have reduced : a.neg.num = (a.modulus - a.num) % a.modulus := rfl
  unfold guardedNeg isZero
  rw [reduced]
  by_cases zero : a.num = 0
  · rw [if_pos (beq_iff_eq.mpr zero), zero, Nat.sub_zero, Nat.mod_self]
  · rw [if_neg (fun h => zero (beq_iff_eq.mp h)), difference_of_le below.le,
      Nat.mod_eq_of_lt (by omega)]

end Guarded

/-- A result is the residue `x` written below the modulus, and its number is computed without a crash. -/
def Yields {m : Nat} (x : ZMod m) (result : Except Misuse FieldElement)
    (computed : Guarded Misuse Nat) : Prop :=
  ∃ c, result = .ok c ∧ computed = .ok c.num ∧ c.modulus = m ∧ c.num < m ∧ (c.num : ZMod m) = x

theorem yields_ofZMod {m : Nat} [Fact (1 < m)] (x : ZMod m) {result : Except Misuse FieldElement}
    {computed : Guarded Misuse Nat} (given : result = .ok (ofZMod x))
    (same : computed = operate (result.map num)) : Yields x result computed := by
  subst given
  have : NeZero m := ⟨by have := Fact.out (p := 1 < m); omega⟩
  exact ⟨ofZMod x, rfl, same, rfl, ZMod.val_lt x, ZMod.natCast_zmod_val x⟩

/-! ## Quotients -/

theorem inverse_eq_divisionByZero_iff {b : FieldElement} {m : Nat} (field : b.modulus = m) :
    b.inverse = .error (.divisionByZero m) ↔ b.num = 0 := by
  subst field
  unfold inverse
  split
  · rename_i zero
    exact iff_of_true rfl zero
  · rename_i nonzero
    exact iff_of_false nofun nonzero

theorem checkedDiv_eq_divisionByZero_iff {a b : FieldElement} {m : Nat} (a_field : a.modulus = m)
    (b_field : b.modulus = m) : a.checkedDiv b = .error (.divisionByZero m) ↔ b.num = 0 := by
  rw [← inverse_eq_divisionByZero_iff b_field, checkedDiv, if_pos (a_field.trans b_field.symm)]
  cases b.inverse with
  | error e => exact Iff.rfl
  | ok i =>
    constructor
    · intro divided
      cases divided
    · intro inverted
      cases inverted

theorem div_eq_divisionByZero_iff {a b : FieldElement} {m : Nat} (a_field : a.modulus = m)
    (b_field : b.modulus = m) : a.div b = .error (.divisionByZero m) ↔ b.num = 0 := by
  rw [div, if_pos (a_field.trans b_field.symm), a_field]
  split
  · rename_i zero
    exact iff_of_true rfl zero
  · rename_i nonzero
    exact iff_of_false nofun nonzero

section Prime

variable {p : Nat} [Fact p.Prime]

theorem div_ofZMod (x : ZMod p) {y : ZMod p} (nonzero : y ≠ 0) :
    (ofZMod x).div (ofZMod y) = .ok (ofZMod (x / y)) := by
  simp [div, nonzero, pow_sub_two nonzero, div_eq_mul_inv]

/-- The laws of division by an element other than zero. -/
theorem exists_quotient (x : ZMod p) {y : ZMod p} (nonzero : y ≠ 0) :
    ∃ q i, (ofZMod x).div (ofZMod y) = .ok q ∧ (ofZMod x).checkedDiv (ofZMod y) = .ok q ∧
      q.mul (ofZMod y) = .ok (ofZMod x) ∧
      ((ofZMod x).mul (ofZMod y) >>= fun product => product.div (ofZMod y)) = .ok (ofZMod x) ∧
      (ofZMod y).inverse = .ok i ∧ (ofZMod y).mul i = .ok (ofZMod y).one := by
  refine ⟨ofZMod (x / y), ofZMod y⁻¹, div_ofZMod x nonzero, checkedDiv_ofZMod x nonzero, ?_, ?_,
    inverse_ofZMod nonzero, ?_⟩
  · rw [mul_ofZMod, div_mul_cancel₀ x nonzero]
  · rw [mul_ofZMod, ok_bind, div_ofZMod _ nonzero, mul_div_cancel_right₀ x nonzero]
  · rw [mul_ofZMod, mul_inv_cancel₀ nonzero, one, residue_ofZMod, Nat.cast_one]

end Prime

/-! ## All operators -/

/-- The operators on elements that were built over one modulus: sums, differences, products and
opposites are those of the ring of residues, and over a prime modulus quotients and inverses are
those of the field, refused for a divisor that is zero and for no other. -/
theorem operators_ofNat {m x y : Nat} {a b : FieldElement} (first : ofNat x m = .ok a)
    (second : ofNat y m = .ok b) :
    Yields (x + y : ZMod m) (a.add b) (a.guardedAdd b) ∧
      Yields (x - y : ZMod m) (a.sub b) (a.guardedSub b) ∧
      Yields (x * y : ZMod m) (a.mul b) (a.guardedMul b) ∧
      Yields (-x : ZMod m) (.ok a.neg) a.guardedNeg ∧
      (m.Prime → y ≠ 0 → ∃ q i, a.div b = .ok q ∧ a.checkedDiv b = .ok q ∧ q.mul b = .ok a ∧
        (a.mul b >>= fun product => product.div b) = .ok a ∧
        b.inverse = .ok i ∧ b.mul i = .ok b.one) ∧
      (b.inverse = .error (.divisionByZero m) ↔ y = 0) ∧
      (a.checkedDiv b = .error (.divisionByZero m) ↔ y = 0) ∧
      (a.div b = .error (.divisionByZero m) ↔ y = 0) := by
  obtain ⟨rfl, a_field⟩ := ofNat_eq_ok_iff.mp first
  obtain ⟨rfl, b_field⟩ := ofNat_eq_ok_iff.mp second
  have : Fact (1 < m) := ⟨a_field ▸ a.two_le⟩
  -- What is said of zero is said of numbers, before the elements become residue classes.
  have inverse_iff := inverse_eq_divisionByZero_iff b_field
  have checkedDiv_iff := checkedDiv_eq_divisionByZero_iff a_field b_field
  have div_iff := div_eq_divisionByZero_iff a_field b_field
  have a_eq := eq_ofZMod (m := m) a_field
  have b_eq := eq_ofZMod (m := m) b_field
  generalize (a.num : ZMod m) = X at a_eq ⊢
  generalize (b.num : ZMod m) = Y at b_eq ⊢
  subst a_eq b_eq
  refine ⟨yields_ofZMod _ (add_ofZMod X Y) (guardedAdd_eq _ _),
    yields_ofZMod _ (sub_ofZMod X Y) (guardedSub_eq _ _),
    yields_ofZMod _ (mul_ofZMod X Y) (guardedMul_eq _ _),
    yields_ofZMod _ (congrArg Except.ok (neg_ofZMod X)) (guardedNeg_eq _), ?_, inverse_iff,
    checkedDiv_iff, div_iff⟩
  intro prime nonzero
  have : Fact m.Prime := ⟨prime⟩
  exact exists_quotient X fun zero => nonzero (num_eq_zero_iff.mpr zero)

section Example

def twoModSeven : FieldElement :=
  ⟨2, 7, Nat.le_of_ble_eq_true rfl, Nat.le_of_ble_eq_true rfl⟩

def fiveModSeven : FieldElement :=
  ⟨5, 7, Nat.le_of_ble_eq_true rfl, Nat.le_of_ble_eq_true rfl⟩

/-- Modulo seven the difference of two and five wraps around to four, and two is divided by five. -/
theorem operators_ofNat_seven :
    ofNat 2 7 = .ok twoModSeven ∧ ofNat 5 7 = .ok fiveModSeven ∧ Nat.Prime 7 ∧
      Yields ((2 : Nat) - (5 : Nat) : ZMod 7) (twoModSeven.sub fiveModSeven)
        (twoModSeven.guardedSub fiveModSeven) ∧
      (twoModSeven.guardedSub fiveModSeven : Guarded Misuse Nat) = .ok 4 ∧
      ∃ q i, twoModSeven.div fiveModSeven = .ok q ∧ twoModSeven.checkedDiv fiveModSeven = .ok q ∧
        q.mul fiveModSeven = .ok twoModSeven ∧
        (twoModSeven.mul fiveModSeven >>= fun product => product.div fiveModSeven) =
          .ok twoModSeven ∧
        fiveModSeven.inverse = .ok i ∧ fiveModSeven.mul i = .ok fiveModSeven.one := by
  have first : ofNat 2 7 = .ok twoModSeven := rfl
  have second : ofNat 5 7 = .ok fiveModSeven := rfl
  have prime : Nat.Prime 7 := by decide
  obtain ⟨-, difference, -, -, quotient, -⟩ := operators_ofNat first second
  exact ⟨first, second, prime, difference, rfl, quotient prime (by decide)⟩

end Example

end CoinScript.FieldElement
