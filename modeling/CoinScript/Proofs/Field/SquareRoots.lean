import CoinScript.Proofs.Encoding.Sec
import CoinScript.Proofs.Field.Arithmetic
import Mathlib.NumberTheory.LegendreSymbol.Basic

/-!
# Square roots

Over a prime modulus of the form `4 k + 3` the square of the power `(p + 1) / 4`
of an element is the element times its power `p / 2`. By Euler's criterion the
latter is one for the squares other than zero and the opposite of one for
everything else. The candidate therefore is a root of every square, and of the
opposite of every other element, so that squaring it tells the two apart. This
is how a compressed key finds out whether there is a point with its first
coordinate.
-/

namespace CoinScript.FieldElement

/-- The square of `b` is `a`. -/
def IsRoot (b a : FieldElement) : Prop := b.mul b = .ok a

instance (b a : FieldElement) : Decidable (b.IsRoot a) := inferInstanceAs (Decidable (_ = _))

def HasRoot (a : FieldElement) : Prop := ∃ b : FieldElement, b.IsRoot a

theorem modulus_of_isRoot {a b : FieldElement} (root : b.IsRoot a) : b.modulus = a.modulus := by
  have squared : b.residue (b.num * b.num) = a := by
    simpa [IsRoot, mul, combine] using root
  rw [← squared]
  rfl

section Classes

variable {m : Nat} [Fact (1 < m)] {x y : ZMod m}

theorem isRoot_ofZMod : (ofZMod y).IsRoot (ofZMod x) ↔ y * y = x := by
  rw [IsRoot, mul_ofZMod, Except.ok.injEq, ofZMod_inj]

/-- Roots belong to the field of their square. -/
theorem isRoot_ofZMod_iff {b : FieldElement} :
    b.IsRoot (ofZMod x) ↔ ∃ y : ZMod m, b = ofZMod y ∧ y * y = x := by
  constructor
  · intro root
    obtain ⟨y, rfl⟩ : ∃ y : ZMod m, b = ofZMod y := ⟨_, eq_ofZMod (modulus_of_isRoot root)⟩
    exact ⟨y, rfl, isRoot_ofZMod.mp root⟩
  · rintro ⟨y, rfl, squared⟩
    exact isRoot_ofZMod.mpr squared

theorem hasRoot_ofZMod : (ofZMod x).HasRoot ↔ IsSquare x := by
  constructor
  · rintro ⟨b, root⟩
    obtain ⟨y, -, squared⟩ := isRoot_ofZMod_iff.mp root
    exact ⟨y, squared.symm⟩
  · rintro ⟨y, rfl⟩
    exact ⟨ofZMod y, isRoot_ofZMod.mpr rfl⟩

end Classes

section Prime

variable {p : Nat} [Fact p.Prime] {x : ZMod p}

theorem pow_quarter_of_isSquare (quarter : p % 4 = 3) (square : IsSquare x) :
    x ^ ((p + 1) / 4) * x ^ ((p + 1) / 4) = x := by
  obtain ⟨y, rfl⟩ := square
  rcases pow_quarter_sq quarter y with root | root
  · rw [root]
  · rw [root, neg_mul_neg]

/-- The half of Euler's criterion that is about the elements without a root. -/
theorem pow_half_of_not_isSquare (other : ¬IsSquare x) : x ^ (p / 2) = -1 := by
  have nonzero : x ≠ 0 := by
    rintro rfl
    exact other IsSquare.zero
  rcases ZMod.pow_div_two_eq_neg_one_or_one p nonzero with one | neg
  · exact absurd ((ZMod.euler_criterion p nonzero).mpr one) other
  · exact neg

theorem pow_quarter_of_not_isSquare (quarter : p % 4 = 3) (other : ¬IsSquare x) :
    x ^ ((p + 1) / 4) * x ^ ((p + 1) / 4) = -x := by
  have exponent : (p + 1) / 4 + (p + 1) / 4 = p / 2 + 1 := by omega
  calc x ^ ((p + 1) / 4) * x ^ ((p + 1) / 4)
    _ = x ^ (p / 2) * x := by rw [← pow_add, exponent, pow_succ]
    _ = -x := by rw [pow_half_of_not_isSquare other, neg_one_mul]

theorem ne_neg_self (odd : p % 2 = 1) (nonzero : x ≠ 0) : x ≠ -x := by
  intro same
  have parity := isEven_neg odd nonzero
  rw [← same] at parity
  exact Bool.not_ne_self _ parity.symm

/-- Squaring the candidate tells the squares from the other elements, since no element other than
zero is its own opposite. -/
theorem pow_quarter_iff (quarter : p % 4 = 3) :
    x ^ ((p + 1) / 4) * x ^ ((p + 1) / 4) = x ↔ IsSquare x := by
  constructor
  · intro root
    by_contra other
    have nonzero : x ≠ 0 := by
      rintro rfl
      exact other IsSquare.zero
    have opposite := pow_quarter_of_not_isSquare quarter other
    exact ne_neg_self (by omega) nonzero (root.symm.trans opposite)
  · exact pow_quarter_of_isSquare quarter

end Prime

end CoinScript.FieldElement

namespace CoinScript.Sec

open Secp256k1 (fieldPrime residue)

/-- A first coordinate is refused exactly when the right side of the equation has no root. -/
theorem decodeCompressed_cases (even : Bool) {x : Nat} (bound : x < fieldPrime) :
    ((∃ P, decodeCompressed even x = .ok P) ∧ (residue (x * x * x + 7)).HasRoot) ∨
      (decodeCompressed even x = .error .xNotOnCurve ∧ ¬(residue (x * x * x + 7)).HasRoot) := by
  have square : residue (x * x * x + 7) = .ofZMod (x * x * x + 7 : ZMod fieldPrime) := by
    rw [Secp256k1.residue_eq]
    push_cast
    rfl
  rw [square, FieldElement.hasRoot_ofZMod,
    ← FieldElement.pow_quarter_iff Secp256k1.fieldPrime_mod_four, decodeCompressed_eq bound]
  dsimp only
  split
  · rename_i root
    exact Or.inl ⟨⟨_, rfl⟩, root⟩
  · rename_i other
    exact Or.inr ⟨rfl, other⟩

end CoinScript.Sec

namespace CoinScript.FieldElement

open Secp256k1 (fieldPrime)

/-- Over a prime modulus that is `3` modulo `4` the square of the root computed is the element if it
is a square, and its opposite if it is none. A square has this root and its opposite and no other,
and they differ unless it is zero. Hence a compressed key is accepted exactly when `x³ + 7` is a
square. -/
theorem sqrt_separates_squares {p : Nat} [Fact p.Prime] (quarter : p % 4 = 3) {a : FieldElement}
    (field : a.modulus = p) :
    (a.HasRoot → a.sqrt.mul a.sqrt = .ok a) ∧
      (¬a.HasRoot → a.sqrt.mul a.sqrt = .ok a.neg) ∧
      (a.sqrt.mul a.sqrt = .ok a ↔ a.HasRoot) ∧
      (a.HasRoot → ∀ b : FieldElement, b.IsRoot a ↔ b = a.sqrt ∨ b = a.sqrt.neg) ∧
      (a.sqrt = a.sqrt.neg ↔ a.num = 0) ∧
      ∀ (even : Bool) (body : Bytes), body.length = 32 → Bytes.toNatBE body < fieldPrime →
        let x := Bytes.toNatBE body
        let data := (if even then 0x02 else 0x03) :: body
        ((∃ P, Sec.decode data = .ok P) ↔ (Secp256k1.residue (x * x * x + 7)).HasRoot) ∧
          (Sec.decode data = .error .xNotOnCurve ↔
            ¬(Secp256k1.residue (x * x * x + 7)).HasRoot) := by
  obtain ⟨x, rfl⟩ : ∃ x : ZMod p, a = ofZMod x := ⟨_, eq_ofZMod field⟩
  simp only [sqrt_ofZMod, mul_ofZMod, neg_ofZMod, Except.ok.injEq, ofZMod_inj, hasRoot_ofZMod,
    num_eq_zero_iff]
  refine ⟨pow_quarter_of_isSquare quarter, pow_quarter_of_not_isSquare quarter,
    pow_quarter_iff quarter, ?_, ?_, ?_⟩
  · intro square b
    have root := pow_quarter_of_isSquare quarter square
    rw [isRoot_ofZMod_iff]
    constructor
    · rintro ⟨y, rfl, squared⟩
      rw [ofZMod_inj, ofZMod_inj]
      exact mul_self_eq_mul_self_iff.mp (squared.trans root.symm)
    · rintro (rfl | rfl)
      · exact ⟨_, rfl, root⟩
      · exact ⟨_, rfl, by rw [neg_mul_neg, root]⟩
  · have positive : (p + 1) / 4 ≠ 0 := by omega
    constructor
    · intro same
      by_contra nonzero
      exact ne_neg_self (by omega) (pow_ne_zero _ nonzero) same
    · rintro rfl
      rw [zero_pow positive, neg_zero]
  · intro even body length bound
    rw [Sec.decode_compressed length]
    rcases Sec.decodeCompressed_cases even bound with ⟨accepted, root⟩ | ⟨refused, other⟩
    · obtain ⟨P, accepted⟩ := accepted
      refine ⟨iff_of_true ⟨P, accepted⟩ root, ?_⟩
      constructor
      · intro refused
        cases accepted.symm.trans refused
      · intro other
        exact absurd root other
    · refine ⟨?_, iff_of_true refused other⟩
      constructor
      · rintro ⟨P, accepted⟩
        cases accepted.symm.trans refused
      · intro root
        exact absurd root other

section Example

/-- Modulo seven `2` has the roots `3` and `4`, while the candidate for `5` is a root of `2`. On
secp256k1 there are points with the first coordinate `1` but none with `5`. -/
theorem sqrt_separates_squares_seven :
    Nat.Prime 7 ∧ 7 % 4 = 3 ∧ twoModSeven.modulus = 7 ∧ fiveModSeven.modulus = 7 ∧
      twoModSeven.HasRoot ∧ twoModSeven.sqrt.mul twoModSeven.sqrt = .ok twoModSeven ∧
      (∀ b : FieldElement, b.IsRoot twoModSeven ↔
        b = twoModSeven.sqrt ∨ b = twoModSeven.sqrt.neg) ∧
      twoModSeven.sqrt ≠ twoModSeven.sqrt.neg ∧
      ¬fiveModSeven.HasRoot ∧ fiveModSeven.sqrt.mul fiveModSeven.sqrt = .ok fiveModSeven.neg ∧
      (∃ P, Sec.decode (0x02 :: Sec.coordinateBytes 1) = .ok P) ∧
      Sec.decode (0x03 :: Sec.coordinateBytes 5) = .error .xNotOnCurve ∧
      ¬(Secp256k1.residue 132).HasRoot := by
  have prime : Nat.Prime 7 := by decide
  have : Fact (Nat.Prime 7) := ⟨prime⟩
  have quarter : 7 % 4 = 3 := rfl
  have field : twoModSeven.modulus = 7 := rfl
  have field' : fiveModSeven.modulus = 7 := rfl
  have root : twoModSeven.HasRoot := ⟨⟨3, 7, by decide, by decide⟩, by decide⟩
  obtain ⟨squared, -, -, roots, same, codes⟩ := sqrt_separates_squares quarter field
  obtain ⟨-, opposite, iff, -⟩ := sqrt_separates_squares quarter field'
  have other : ¬fiveModSeven.HasRoot := fun h => absurd (iff.mpr h) (by decide +kernel)
  -- The point with first coordinate one is given by its second coordinate, the other one computed.
  have first : Bytes.toNatBE (Sec.coordinateBytes 1) = 1 := by decide
  have fifth : Bytes.toNatBE (Sec.coordinateBytes 5) = 5 := by decide
  have one := (codes true _ (Sec.length_coordinateBytes 1) (by rw [first]; decide)).1
  have five := (codes false _ (Sec.length_coordinateBytes 5) (by rw [fifth]; decide)).2
  rw [first] at one
  rw [fifth] at five
  have second : (Secp256k1.residue
      0x4218f20ae6c646b363db68605822fb14264ca8d2587fdd6fbc750d587e76a7ee).IsRoot
        (Secp256k1.residue 8) := by
    decide +kernel
  have refused : Sec.decode (0x03 :: Sec.coordinateBytes 5) = .error .xNotOnCurve := by
    decide +kernel
  exact ⟨prime, quarter, field, field', root, squared root, roots root,
    fun h => absurd (same.mp h) (by decide), other, opposite other, one.mpr ⟨_, second⟩, refused,
    five.mp refused⟩

end Example

end CoinScript.FieldElement
