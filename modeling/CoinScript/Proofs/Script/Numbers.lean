import CoinScript.Proofs.Encoding.Digits
import CoinScript.Proofs.Sequencing
import CoinScript.Script.Stack

/-!
# The size of numbers on the stack

An operand has at most four bytes, so its magnitude is below `2 ^ 31`. The
arithmetic instructions add at most the magnitudes of their operands, and what
they write has a few bytes. The number of items on a stack and the length of an
item are written with few bytes as well.
-/

namespace CoinScript

namespace Number

variable {n : Int}

theorem length_sign_le (negative : Bool) (bs : Bytes) :
    (sign negative bs).length ≤ bs.length + 1 := by
  fun_induction sign negative bs with
  | case1 => exact Nat.zero_le 1
  | case2 b small => exact Nat.le_succ 1
  | case3 b large => exact Nat.le_refl 2
  | case4 b c bs ih => exact Nat.succ_le_succ ih

/-- A magnitude of at most `width` digits takes one more byte at most, for the sign. -/
theorem length_encode_le (width : Nat) (bound : n.natAbs < 256 ^ width) :
    (encode n).length ≤ width + 1 := by
  have signed := length_sign_le (n < 0) (Bytes.digitsLE n.natAbs)
  have digits := Bytes.length_digitsLE_le bound
  rw [encode]
  omega

theorem length_ofBool_le (b : Bool) : (ofBool b).length ≤ 2 := by
  refine length_encode_le 1 ?_
  cases b <;> decide

/-- The length of an item is written with no more bytes than the item has, unless it is short. -/
theorem length_encode_natCast_le (n : Nat) : (encode n).length ≤ max 32 n := by
  by_cases short : n < 32
  · have written := length_encode_le (n := n) 1 (by rw [Int.natAbs_natCast]; omega)
    omega
  · have bound : n < 256 ^ (n - 1) := by
      obtain ⟨k, rfl⟩ : ∃ k, n = k + 2 := ⟨n - 2, by omega⟩
      have power : k < 256 ^ k := Nat.lt_pow_self (by decide)
      rw [show k + 2 - 1 = k + 1 from rfl, Nat.pow_succ]
      omega
    have written := length_encode_le (n := n) (n - 1) (by rwa [Int.natAbs_natCast])
    omega

theorem two_magnitude_lt (bs : Bytes) : 2 * magnitude bs < 256 ^ bs.length := by
  fun_induction magnitude bs with
  | case1 => decide
  | case2 b =>
    have low := Nat.mod_lt b.toNat (by decide : 0 < 128)
    simp only [List.length_singleton, Nat.pow_one]
    omega
  | case3 b c bs ih =>
    have low := b.toNat_lt
    simp only [List.length_cons, Nat.pow_succ] at ih ⊢
    omega

theorem natAbs_value (bs : Bytes) : (value bs).natAbs = magnitude bs := by
  unfold value
  split
  · rw [Int.natAbs_neg, Int.natAbs_natCast]
  · exact Int.natAbs_natCast _

theorem decode?_eq_some_iff {bs : Bytes} : decode? bs = some n ↔ bs.length ≤ 8 ∧ value bs = n := by
  unfold decode?
  split
  · rename_i short
    rw [Option.some_inj, and_iff_right short]
  · rename_i long
    exact iff_of_false nofun fun h => long h.1

theorem decode?_of_short {item : Bytes} (short : item.length ≤ 4) :
    decode? item = some (value item) :=
  decode?_eq_some_iff.mpr ⟨by omega, rfl⟩

end Number

namespace Stack

variable {s t : Stack} {n : Int}

theorem operand_of_short {item : Bytes} (short : item.length ≤ 4) :
    operand item = .ok (Number.value item) :=
  if_pos short

theorem operand_of_long {item : Bytes} (long : 4 < item.length) :
    operand item = .error .numericOverflow :=
  if_neg (Nat.not_le_of_lt long)

theorem natAbs_operand_lt {item : Bytes} (read : operand item = .ok n) :
    n.natAbs < 2 ^ 31 := by
  unfold operand at read
  split at read
  · rename_i short
    cases read
    have small := Number.two_magnitude_lt item
    have wide : 256 ^ item.length ≤ 256 ^ 4 := Nat.pow_le_pow_right (by decide) short
    rw [Number.natAbs_value]
    omega
  · cases read

theorem sublist_of_popNumber (popped : s.popNumber = .ok (n, t)) :
    n.natAbs < 2 ^ 31 ∧ t.Sublist s := by
  cases s with
  | nil => cases popped
  | cons item rest =>
    obtain ⟨m, read, same⟩ := bind_eq_ok_iff.mp popped
    cases same
    exact ⟨natAbs_operand_lt read, List.sublist_cons_self _ _⟩

theorem sublist_of_popDepth {depth : Nat} (popped : s.popDepth = .ok (depth, t)) :
    depth < t.length ∧ t.Sublist s := by
  obtain ⟨⟨n, rest⟩, number, checked⟩ := bind_eq_ok_iff.mp popped
  dsimp only at checked
  split at checked
  · cases checked
  · cases checked
    exact ⟨by omega, (sublist_of_popNumber number).2⟩

end Stack

theorem UnaryOperation.natAbs_apply_le (operation : UnaryOperation) (a : Int) :
    (operation.apply a).natAbs ≤ a.natAbs + 1 := by
  cases operation <;> simp only [apply] <;> (try split) <;> omega

theorem BinaryOperation.natAbs_apply_le (operation : BinaryOperation) (a b : Int) :
    (operation.apply a b).natAbs ≤ a.natAbs + b.natAbs + 1 := by
  cases operation <;> simp only [apply] <;> (try split) <;> omega

end CoinScript
