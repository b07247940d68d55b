import CoinScript.Bytes
import Mathlib.Tactic.Ring

/-!
# Numbers and their bytes

Reading undoes both ways of writing a number: the shortest digits give the
number back, and digits of a fixed width give it back if it fits. Digits that
do not start with a zero are the shortest ones of their value.
-/

namespace CoinScript.Bytes

theorem toNat_toUInt8 (n : Nat) : n.toUInt8.toNat = n % 256 :=
  UInt8.toNat_ofNat'

theorem toNat_length_toUInt8 {bs : Bytes} (fits : bs.length ≤ 255) :
    bs.length.toUInt8.toNat = bs.length := by
  rw [toNat_toUInt8]
  omega

theorem digitsLE_zero : digitsLE 0 = [] := by
  rw [digitsLE, if_pos rfl]

theorem digitsLE_ne_nil {n : Nat} (positive : 0 < n) : digitsLE n ≠ [] := by
  rw [digitsLE, if_neg positive.ne']
  exact List.cons_ne_nil _ _

theorem digitsLE_cons {b : UInt8} {m : Nat} (positive : 0 < b.toNat + 256 * m) :
    digitsLE (b.toNat + 256 * m) = b :: digitsLE m := by
  have bound := b.toNat_lt
  have low : (b.toNat + 256 * m).toUInt8 = b := by
    apply UInt8.toNat_inj.mp
    rw [toNat_toUInt8]
    omega
  have high : (b.toNat + 256 * m) / 256 = m := by omega
  rw [digitsLE, if_neg positive.ne', low, high]

theorem toNatLE_digitsLE (n : Nat) : toNatLE (digitsLE n) = n := by
  fun_induction digitsLE n with
  | case1 => rfl
  | case2 n nonzero ih =>
    rw [toNatLE, ih, toNat_toUInt8]
    omega

theorem toNatLE_ofNatLE (width n : Nat) : toNatLE (ofNatLE width n) = n % 256 ^ width := by
  induction width generalizing n with
  | zero => simp [ofNatLE, toNatLE, Nat.mod_one]
  | succ width ih =>
    rw [ofNatLE, toNatLE, ih, toNat_toUInt8, pow_succ', Nat.mod_mul]

theorem toNatBE_ofNatBE (width n : Nat) : toNatBE (ofNatBE width n) = n % 256 ^ width := by
  rw [toNatBE, ofNatBE, List.reverse_reverse, toNatLE_ofNatLE]

theorem toNatBE_minimalBE (n : Nat) : toNatBE (minimalBE n) = n := by
  by_cases zero : n = 0
  · simp [minimalBE, zero, toNatBE, toNatLE]
  · rw [minimalBE, if_neg zero, toNatBE, List.reverse_reverse, toNatLE_digitsLE]

theorem toNatLE_append (bs cs : Bytes) :
    toNatLE (bs ++ cs) = toNatLE bs + 256 ^ bs.length * toNatLE cs := by
  induction bs with
  | nil => simp [toNatLE]
  | cons b bs ih =>
    rw [List.cons_append, toNatLE, ih, toNatLE, List.length_cons, pow_succ]
    ring

theorem toNatBE_cons (b : UInt8) (bs : Bytes) :
    toNatBE (b :: bs) = b.toNat * 256 ^ bs.length + toNatBE bs := by
  rw [toNatBE, List.reverse_cons, toNatLE_append, List.length_reverse, toNatBE, toNatLE, toNatLE]
  ring

/-- Leading zeros do not count. -/
theorem toNatBE_zero_cons (bs : Bytes) : toNatBE (0 :: bs) = toNatBE bs := by
  rw [toNatBE_cons, UInt8.toNat_zero, Nat.zero_mul, Nat.zero_add]

/-- Digits of a fixed width are those of their value. -/
theorem ofNatLE_toNatLE (bs : Bytes) : ofNatLE bs.length (toNatLE bs) = bs := by
  induction bs with
  | nil => rfl
  | cons b bs ih =>
    have low : (b.toNat + 256 * toNatLE bs).toUInt8 = b := by
      apply UInt8.toNat_inj.mp
      rw [toNat_toUInt8]
      have := b.toNat_lt
      omega
    have high : (b.toNat + 256 * toNatLE bs) / 256 = toNatLE bs := by
      have := b.toNat_lt
      omega
    rw [toNatLE, List.length_cons, ofNatLE, low, high, ih]

theorem toNatLE_ofNatLE_of_lt {width n : Nat} (bound : n < 256 ^ width) :
    toNatLE (ofNatLE width n) = n := by
  rw [toNatLE_ofNatLE, Nat.mod_eq_of_lt bound]

theorem toNatLE_lt (bs : Bytes) : toNatLE bs < 256 ^ bs.length := by
  induction bs with
  | nil => exact Nat.one_pos
  | cons b bs ih =>
    have low := b.toNat_lt
    rw [toNatLE, List.length_cons, pow_succ]
    omega

theorem toNatBE_lt (bs : Bytes) : toNatBE bs < 256 ^ bs.length := by
  rw [toNatBE, ← List.length_reverse]
  exact toNatLE_lt bs.reverse

theorem ofNatBE_toNatBE {width : Nat} {bs : Bytes} (length : bs.length = width) :
    ofNatBE width (toNatBE bs) = bs := by
  have reversed := ofNatLE_toNatLE bs.reverse
  rw [List.length_reverse, length] at reversed
  rw [ofNatBE, toNatBE, reversed, List.reverse_reverse]

theorem toNatBE_ofNatBE_of_lt {width n : Nat} (bound : n < 256 ^ width) :
    toNatBE (ofNatBE width n) = n := by
  rw [toNatBE_ofNatBE, Nat.mod_eq_of_lt bound]

/-- A number of at most `width` digits is written with at most that many. -/
theorem length_digitsLE_le {width n : Nat} (bound : n < 256 ^ width) :
    (digitsLE n).length ≤ width := by
  induction width generalizing n with
  | zero =>
    obtain rfl : n = 0 := by simpa using bound
    simp [digitsLE]
  | succ width ih =>
    rw [digitsLE]
    by_cases zero : n = 0
    · simp [zero]
    · rw [if_neg zero, List.length_cons]
      have := ih (Nat.div_lt_of_lt_mul (by rwa [pow_succ'] at bound) : n / 256 < 256 ^ width)
      omega

/-- The most significant digit is not zero. -/
theorem exists_digitsLE {n : Nat} (positive : 0 < n) :
    ∃ bs b, b ≠ 0 ∧ digitsLE n = bs ++ [b] := by
  fun_induction digitsLE n with
  | case1 => exact absurd positive (Nat.lt_irrefl 0)
  | case2 n nonzero ih =>
    rcases (n / 256).eq_zero_or_pos with small | large
    · refine ⟨[], n.toUInt8, fun zero => ?_, ?_⟩
      · have value := toNat_toUInt8 n
        rw [zero, UInt8.toNat_zero] at value
        omega
      · rw [small, digitsLE_zero, List.nil_append]
    · obtain ⟨bs, b, leading, digits⟩ := ih large
      exact ⟨n.toUInt8 :: bs, b, leading, by rw [digits, List.cons_append]⟩

theorem exists_minimalBE {n : Nat} (positive : 0 < n) :
    ∃ b bs, b ≠ 0 ∧ minimalBE n = b :: bs := by
  obtain ⟨bs, b, leading, digits⟩ := exists_digitsLE positive
  refine ⟨b, bs.reverse, leading, ?_⟩
  rw [minimalBE, if_neg positive.ne', digits, List.reverse_append, List.reverse_singleton,
    List.singleton_append]

theorem pow_le_toNatLE (bs : Bytes) {b : UInt8} (leading : b ≠ 0) :
    256 ^ bs.length ≤ toNatLE (bs ++ [b]) := by
  have positive : 0 < b.toNat := Nat.pos_of_ne_zero fun zero => leading (UInt8.toNat_inj.mp zero)
  rw [toNatLE_append, toNatLE, toNatLE, Nat.mul_zero, Nat.add_zero]
  exact (Nat.le_mul_of_pos_right _ positive).trans (Nat.le_add_left _ _)

theorem pow_le_toNatBE (bs : Bytes) {b : UInt8} (leading : b ≠ 0) :
    256 ^ bs.length ≤ toNatBE (b :: bs) := by
  rw [toNatBE, List.reverse_cons, ← List.length_reverse]
  exact pow_le_toNatLE bs.reverse leading

theorem digitsLE_toNatLE (bs : Bytes) {b : UInt8} (leading : b ≠ 0) :
    digitsLE (toNatLE (bs ++ [b])) = bs ++ [b] := by
  have positive := fun cs => (Nat.pow_pos (by decide)).trans_le (pow_le_toNatLE cs leading)
  induction bs with
  | nil => exact (digitsLE_cons (positive [])).trans (by rw [toNatLE, digitsLE_zero, List.nil_append])
  | cons c bs ih =>
    have rest := positive (c :: bs)
    rw [List.cons_append, toNatLE] at rest
    rw [List.cons_append, toNatLE, digitsLE_cons rest, ih]

/-- Digits that do not start with a zero are those of their value. -/
theorem minimalBE_toNatBE {b : UInt8} {bs : Bytes} (leading : b ≠ 0) :
    minimalBE (toNatBE (b :: bs)) = b :: bs := by
  have digits := digitsLE_toNatLE bs.reverse leading
  have positive := (Nat.pow_pos (by decide)).trans_le (pow_le_toNatBE bs leading)
  rw [← List.reverse_cons] at digits
  rw [minimalBE, if_neg positive.ne', toNatBE, digits, List.reverse_reverse]

end CoinScript.Bytes
