import CoinScript.Guarded.Stack
import CoinScript.Proofs.Guarded.Basic
import CoinScript.Proofs.Script.Numbers
import Mathlib.Data.List.GetD

/-!
# Instructions on vectors stay in their domains

An instruction on a pile does what it does on the stack that the pile holds in
reverse. It fails where the instruction on the stack fails, for the same
reason, and it never crashes. The checks for the number of items show that the
indices are in range, and the limit of four bytes for an operand leaves enough
of the sixty-four bits.
-/

namespace CoinScript

open Guarded

/-! ## Numbers -/

namespace Number

variable {ε : Type} {length i : Nat} {bs : Bytes}

/-- One digit, shifted to its place, is put above those that are there already. -/
theorem toNat_or_shiftLeft {sum : BitVec 64} {digit : Nat} (place : i < 8)
    (low : sum.toNat < 256 ^ i) (small : digit < 256) :
    (sum ||| BitVec.ofNat 64 digit <<< (8 * i)).toNat = sum.toNat + 256 ^ i * digit := by
  have power : 2 ^ (8 * i) = 256 ^ i := by rw [Nat.pow_mul]
  have room : 256 ^ i * digit < 2 ^ 64 := by
    have bound : 256 ^ i ≤ 256 ^ 7 := Nat.pow_le_pow_right (by decide) (by omega)
    calc 256 ^ i * digit ≤ 256 ^ 7 * 255 := Nat.mul_le_mul bound (by omega)
      _ < 2 ^ 64 := by decide
  have narrow : digit % 2 ^ 64 = digit := Nat.mod_eq_of_lt (by omega)
  rw [BitVec.toNat_or, BitVec.toNat_shiftLeft, BitVec.toNat_ofNat, narrow, Nat.shiftLeft_eq,
    Nat.mul_comm digit, power, Nat.mod_eq_of_lt room, Nat.or_comm, ← power,
    ← Nat.two_pow_add_eq_or_of_lt (by rwa [power]), Nat.add_comm]

/-- The digits from index `i` on, of eight at most, are added up without a loss. -/
theorem exists_collectDigits {sum : BitVec 64} (count : i + bs.length = length) (few : length ≤ 8)
    (low : sum.toNat < 256 ^ i) :
    ∃ total, (collectDigits length i bs sum : Guarded ε (BitVec 64)) = .ok total ∧
      total.toNat = sum.toNat + 256 ^ i * magnitude bs := by
  induction bs generalizing i sum with
  | nil => exact ⟨sum, rfl, rfl⟩
  | cons b bs ih =>
    rw [List.length_cons] at count
    obtain ⟨digit, chosen, small, first⟩ :
        ∃ digit, (if i = length - 1 then b.toNat % 128 else b.toNat) = digit ∧ digit < 256 ∧
          magnitude (b :: bs) = digit + 256 * magnitude bs := by
      have byte := b.toNat_lt
      cases bs with
      | nil =>
        rw [List.length_nil] at count
        exact ⟨b.toNat % 128, if_pos (by omega), by omega, rfl⟩
      | cons c bs =>
        rw [List.length_cons] at count
        exact ⟨b.toNat, if_neg (by omega), byte, rfl⟩
    have added := toNat_or_shiftLeft (i := i) (by omega) low small
    have next : (sum ||| BitVec.ofNat 64 digit <<< (8 * i)).toNat < 256 ^ (i + 1) := by
      have place : 256 ^ i * digit ≤ 256 ^ i * 255 := Nat.mul_le_mul_left _ (by omega)
      rw [added, Nat.pow_succ]
      omega
    obtain ⟨total, collected, value⟩ := ih (by omega) next
    refine ⟨total, ?_, ?_⟩
    · rw [collectDigits, difference_of_le (by omega), ok_bind, chosen]
      dsimp only
      rw [shiftLeft_of_lt (by omega), ok_bind, collected]
    · rw [value, added, first, Nat.pow_succ, Nat.mul_add, Nat.add_assoc, Nat.mul_assoc]

theorem isNegative_eq {last : UInt8} (ends : bs.getLast? = some last) :
    isNegative bs = decide (0x80 ≤ last) := by
  fun_induction isNegative bs with
  | case1 => cases ends
  | case2 b =>
    cases ends
    rfl
  | case3 b c bs ih => exact ih (by rwa [List.getLast?_cons_cons] at ends)

/-- A number of eight bytes at most is read without an overflow, and so is its negative. -/
theorem guardedDecode?_eq (bs : Bytes) :
    (guardedDecode? bs : Guarded ε (Option Int)) = .ok (decode? bs) := by
  unfold guardedDecode? decode?
  cases ends : bs.getLast? with
  | none =>
    rw [List.getLast?_eq_none_iff.mp ends]
    rfl
  | some last =>
    by_cases few : bs.length ≤ 8
    · have none_yet : (0 : BitVec 64).toNat < 256 ^ 0 := by decide
      obtain ⟨total, collected, same⟩ :=
        exists_collectDigits (ε := ε) (Nat.zero_add bs.length) few none_yet
      have same : total.toNat = magnitude bs := by simpa using same
      have half : 2 * magnitude bs < 2 ^ 64 := (two_magnitude_lt bs).trans_le
        (Nat.pow_le_pow_right (by decide) few : 256 ^ bs.length ≤ 256 ^ 8)
      have signed : total.toInt = magnitude bs := by
        rw [BitVec.toInt_eq_toNat_of_lt (by omega), same]
      have range : (int64 (-total.toInt) : Guarded ε Int) = .ok (-total.toInt) :=
        int64_of_natAbs_lt (by omega)
      dsimp only
      rw [if_neg (Nat.not_lt_of_le few), collected, ok_bind, if_pos few, range, signed, value,
        isNegative_eq ends]
      by_cases negative : 0x80 ≤ last
      · rw [if_pos negative, if_pos (decide_eq_true negative)]
        rfl
      · rw [if_neg negative, if_neg (by simpa using negative)]
        rfl
    · dsimp only
      rw [if_pos (Nat.lt_of_not_le few), if_neg few]

theorem truthyFrom_eq (count : i + bs.length = length) :
    (truthyFrom length i bs : Guarded ε Bool) = .ok (truthy bs) := by
  induction bs generalizing i with
  | nil => rfl
  | cons b bs ih =>
    rw [List.length_cons] at count
    rw [truthyFrom]
    by_cases zero : b = 0
    · rw [if_pos zero, ih (by omega), zero]
      cases bs <;> rfl
    · rw [if_neg zero, difference_of_le (by omega), ok_bind]
      refine congrArg Except.ok ?_
      cases bs with
      | nil =>
        rw [List.length_nil] at count
        have last : (i == length - 1) = true := by simp; omega
        have nonzero : (b != 0x00) = true := bne_iff_ne.mpr zero
        rw [truthy, last, nonzero]
        rfl
      | cons c bs =>
        rw [List.length_cons] at count
        have inner : (i == length - 1) = false := by simp; omega
        simp [truthy, inner, zero]

@[simp] theorem guardedTruthy_eq (bs : Bytes) :
    (guardedTruthy bs : Guarded ε Bool) = .ok (truthy bs) :=
  truthyFrom_eq (Nat.zero_add _)

end Number

/-! ## Operands -/

namespace Pile

variable {s : Stack} {item : Bytes}

theorem require_reverse (s : Stack) (n : Nat) :
    require s.reverse n = if s.length < n then fail .stackUnderflow else .ok () := by
  rw [require, List.length_reverse]

@[simp] theorem top_reverse_cons : top (item :: s).reverse = .ok item := by
  rw [top, List.getLast?_reverse, List.head?_cons]

@[simp] theorem pop_reverse_cons : pop (item :: s).reverse = .ok (item, s.reverse) := by
  rw [pop, top_reverse_cons, List.dropLast_reverse]
  rfl

@[simp] theorem push_reverse : push s.reverse item = (item :: s).reverse := by
  rw [push, List.reverse_cons]

theorem popNumber_reverse_cons :
    popNumber (item :: s).reverse =
      ofResult ((Stack.operand item).map fun n => (n, s.reverse)) := by
  rw [popNumber, pop_reverse_cons, ok_bind, Stack.operand]
  dsimp only
  by_cases short : item.length ≤ 4
  · rw [if_neg (Nat.not_lt_of_le short), Number.guardedDecode?_eq, Number.decode?, if_pos short,
      if_pos (by omega)]
    rfl
  · rw [if_pos (Nat.lt_of_not_le short), if_neg short]
    rfl

/-- The index that is counted from the bottom is that of the item at the depth. -/
theorem popIndex_reverse (s : Stack) :
    popIndex s.reverse =
      ofResult (s.popDepth.map fun r => (r.2.length - 1 - r.1, r.2.reverse)) := by
  cases s with
  | nil => rfl
  | cons item s =>
    rw [popIndex, popNumber_reverse_cons, Stack.popDepth, Stack.popNumber, bind_assoc]
    refine ofResult_bind fun n _ => ?_
    dsimp only
    rw [List.length_reverse]
    by_cases inside : n < 0 ∨ s.length ≤ n.toNat
    · have outside : n < 0 ∨ (s.length : Int) ≤ n := by omega
      rw [if_pos inside]
      change _ = ofResult (Except.map _ (if _ then throw _ else _))
      rw [if_pos outside]
      rfl
    · have inside' : ¬(n < 0 ∨ (s.length : Int) ≤ n) := by omega
      rw [if_neg inside, difference_of_le (by omega), ok_bind, difference_of_le (by omega)]
      change _ = ofResult (Except.map _ (if _ then throw _ else _))
      rw [if_neg inside']
      rfl

theorem verify_reverse (s : Stack) : verify s.reverse = ofResult (s.verify.map List.reverse) := by
  cases s with
  | nil => rfl
  | cons item s =>
    rw [verify, pop_reverse_cons, ok_bind, Stack.verify]
    dsimp only
    rw [Number.guardedTruthy_eq, ok_bind]
    cases Number.truthy item <;> rfl

theorem equal_reverse (s : Stack) : equal s.reverse = ofResult (s.equal.map List.reverse) := by
  rcases s with _ | ⟨a, _ | ⟨b, s⟩⟩
  · rfl
  · rfl
  · rw [equal, require_reverse, if_neg (by simp), ok_bind, pop_reverse_cons, ok_bind]
    dsimp only
    rw [pop_reverse_cons, ok_bind, push_reverse]
    rfl

theorem unary_reverse (operation : UnaryOperation) (s : Stack) :
    unary operation.apply s.reverse = ofResult ((s.unary operation.apply).map List.reverse) := by
  cases s with
  | nil => rfl
  | cons a s =>
    rw [unary, popNumber_reverse_cons, Stack.unary]
    refine ofResult_bind fun x read => ?_
    have small := Stack.natAbs_operand_lt read
    have result := operation.natAbs_apply_le x
    dsimp only
    rw [int64_of_natAbs_lt (by omega), ok_bind, push_reverse]
    rfl

theorem binary_reverse (operation : BinaryOperation) (s : Stack) :
    binary operation.apply s.reverse = ofResult ((s.binary operation.apply).map List.reverse) := by
  rcases s with _ | ⟨b, _ | ⟨a, s⟩⟩
  · rfl
  · rfl
  · rw [binary, require_reverse, if_neg (by simp), ok_bind, popNumber_reverse_cons, Stack.binary]
    refine ofResult_bind fun y read_y => ?_
    dsimp only
    rw [popNumber_reverse_cons]
    refine ofResult_bind fun x read_x => ?_
    have small_y := Stack.natAbs_operand_lt read_y
    have small_x := Stack.natAbs_operand_lt read_x
    have result := operation.natAbs_apply_le x y
    dsimp only
    rw [int64_of_natAbs_lt (by omega), ok_bind, push_reverse]
    rfl

theorem within_reverse (s : Stack) : within s.reverse = ofResult (s.within.map List.reverse) := by
  rcases s with _ | ⟨c, _ | ⟨b, _ | ⟨a, s⟩⟩⟩
  · rfl
  · rfl
  · rfl
  · rw [within, require_reverse, if_neg (by simp), ok_bind, popNumber_reverse_cons, Stack.within]
    refine ofResult_bind fun upper _ => ?_
    dsimp only
    rw [popNumber_reverse_cons]
    refine ofResult_bind fun lower _ => ?_
    dsimp only
    rw [popNumber_reverse_cons]
    refine ofResult_bind fun x _ => ?_
    rw [push_reverse]
    rfl

theorem reverse_eq_append {depth : Nat} (inside : depth < s.length) :
    ∃ front part, s.reverse = front ++ s.getD depth [] :: part ∧
      s.length - 1 - depth = front.length ∧ (s.eraseIdx depth).reverse = front ++ part := by
  refine ⟨(s.drop (depth + 1)).reverse, (s.take depth).reverse, ?_, ?_, ?_⟩
  · calc s.reverse = (s.take depth ++ s.getD depth [] :: s.drop (depth + 1)).reverse := by
          rw [List.getD_eq_getElem _ _ inside, List.getElem_cons_drop, List.take_append_drop]
      _ = _ := by simp
  · rw [List.length_reverse, List.length_drop]
    omega
  · rw [List.eraseIdx_eq_take_drop_succ, List.reverse_append]

end Pile

/-! ## Instructions -/

open Pile

theorem StackInstruction.onPile_reverse (i : StackInstruction) (s : Stack) :
    i.onPile s.reverse = ofResult ((i.run s).map List.reverse) := by
  cases i
  case number n => exact congrArg Except.ok push_reverse
  case skip | stray | abort => rfl
  case verify => exact verify_reverse s
  case equal => exact equal_reverse s
  case equalVerify =>
    rw [onPile, equal_reverse]
    exact ofResult_bind fun t _ => verify_reverse t
  case unary operation => exact unary_reverse operation s
  case binary operation => exact binary_reverse operation s
  case numEqualVerify =>
    rw [onPile, binary_reverse]
    exact ofResult_bind fun t _ => verify_reverse t
  case within => exact within_reverse s
  case depth =>
    rw [onPile, List.length_reverse, push_reverse]
    rfl
  case pick =>
    rw [onPile, popIndex_reverse]
    refine ofResult_bind fun ⟨n, t⟩ popped => ?_
    obtain ⟨front, part, pile, position, -⟩ :=
      reverse_eq_append (Stack.sublist_of_popDepth popped).1
    dsimp only
    rw [position, pile, element_append, ← pile, ok_bind, push_reverse]
    rfl
  case roll =>
    rw [onPile, popIndex_reverse]
    refine ofResult_bind fun ⟨n, t⟩ popped => ?_
    obtain ⟨front, part, pile, position, others⟩ :=
      reverse_eq_append (Stack.sublist_of_popDepth popped).1
    dsimp only
    rw [position, pile, removeAt_append, ok_bind]
    dsimp only
    rw [← others, push_reverse]
    rfl
  case drop | dup | size | hash =>
    cases s with
    | nil => rfl
    | cons a s =>
      simp only [onPile, top_reverse_cons, pop_reverse_cons, ok_bind, push_reverse]
      rfl
  case ifDup =>
    cases s with
    | nil => rfl
    | cons a s =>
      simp only [onPile, top_reverse_cons, ok_bind, Number.guardedTruthy_eq, push_reverse, run]
      cases Number.truthy a <;> rfl
  case drop2 | dup2 | nip | over1 | swap | tuck =>
    rcases s with _ | ⟨a, _ | ⟨b, s⟩⟩
    · rfl
    · rfl
    · obtain ⟨below, rfl⟩ : ∃ below : Pile, s = below.reverse := ⟨s.reverse, by simp⟩
      simp [onPile, run, require, difference, Except.map, push]
  case dup3 | rot =>
    rcases s with _ | ⟨a, _ | ⟨b, _ | ⟨c, s⟩⟩⟩
    iterate 3 rfl
    obtain ⟨below, rfl⟩ : ∃ below : Pile, s = below.reverse := ⟨s.reverse, by simp⟩
    simp [onPile, run, require, difference, Except.map]
  case over2 | swap2 =>
    rcases s with _ | ⟨a, _ | ⟨b, _ | ⟨c, _ | ⟨d, s⟩⟩⟩⟩
    iterate 4 rfl
    obtain ⟨below, rfl⟩ : ∃ below : Pile, s = below.reverse := ⟨s.reverse, by simp⟩
    simp [onPile, run, require, difference, Except.map]
  case rot2 =>
    rcases s with _ | ⟨a, _ | ⟨b, _ | ⟨c, _ | ⟨d, _ | ⟨e, _ | ⟨f, s⟩⟩⟩⟩⟩⟩
    iterate 6 rfl
    obtain ⟨below, rfl⟩ : ∃ below : Pile, s = below.reverse := ⟨s.reverse, by simp⟩
    simp [onPile, run, require, difference, Except.map]

theorem AltStackInstruction.onPiles_reverse (i : AltStackInstruction) (s alt : Stack) :
    i.onPiles s.reverse alt.reverse =
      ofResult ((i.run s alt).map fun both => (both.1.reverse, both.2.reverse)) := by
  cases i with
  | put =>
    cases s with
    | nil => rfl
    | cons item s =>
      rw [onPiles, pop_reverse_cons, ok_bind]
      dsimp only
      rw [push_reverse]
      rfl
  | take =>
    cases alt with
    | nil => rfl
    | cons item alt =>
      rw [onPiles, List.getLast?_reverse, List.head?_cons, List.dropLast_reverse]
      dsimp only
      rw [push_reverse]
      rfl

end CoinScript
