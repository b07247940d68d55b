import CoinScript.Proofs.Guarded.Stack
import CoinScript.Proofs.Script.ShortestNumbers
import CoinScript.Script.Opcode
import Mathlib.Data.Fin.VecNotation
import Mathlib.Data.Fintype.Basic
import Mathlib.Tactic.FinCases

/-!
# Arithmetic on the stack

A numeric opcode takes its operands from the top of the stack and leaves there
the number that it computes from their values, as an integer of no bounded
size would be. The four bytes that an operand has at most keep the computation
in sixty-four bits and its result in five bytes. A missing operand is reported
before one that is too long, and the items below the operands stay as they are.
-/

namespace CoinScript

open Guarded

/-- A numeric opcode: its byte, the number of its operands, and the number that it computes from their
values. Operand `0` is the deepest. -/
structure NumericOpcode where
  code : UInt8
  operands : Nat
  result : (Fin operands → Int) → Int

namespace NumericOpcode

/-- One stands for what holds, zero for what does not. -/
def truth (p : Prop) [Decidable p] : Int := if p then 1 else 0

/-- The opcodes that leave a number. -/
def all : List NumericOpcode :=
  [⟨0x8b, 1, fun x => x 0 + 1⟩,
   ⟨0x8c, 1, fun x => x 0 - 1⟩,
   ⟨0x8f, 1, fun x => -x 0⟩,
   ⟨0x90, 1, fun x => |x 0|⟩,
   ⟨0x91, 1, fun x => truth (x 0 = 0)⟩,
   ⟨0x92, 1, fun x => truth (x 0 ≠ 0)⟩,
   ⟨0x93, 2, fun x => x 0 + x 1⟩,
   ⟨0x94, 2, fun x => x 0 - x 1⟩,
   ⟨0x9a, 2, fun x => truth (x 0 ≠ 0 ∧ x 1 ≠ 0)⟩,
   ⟨0x9b, 2, fun x => truth (x 0 ≠ 0 ∨ x 1 ≠ 0)⟩,
   ⟨0x9c, 2, fun x => truth (x 0 = x 1)⟩,
   ⟨0x9e, 2, fun x => truth (x 0 ≠ x 1)⟩,
   ⟨0x9f, 2, fun x => truth (x 0 < x 1)⟩,
   ⟨0xa0, 2, fun x => truth (x 0 > x 1)⟩,
   ⟨0xa1, 2, fun x => truth (x 0 ≤ x 1)⟩,
   ⟨0xa2, 2, fun x => truth (x 0 ≥ x 1)⟩,
   ⟨0xa3, 2, fun x => min (x 0) (x 1)⟩,
   ⟨0xa4, 2, fun x => max (x 0) (x 1)⟩,
   ⟨0xa5, 3, fun x => truth (x 1 ≤ x 0 ∧ x 0 < x 2)⟩]

end NumericOpcode

/-- The stack with the operands on top, the last one topmost. -/
def Stack.under {k : Nat} (items : Fin k → Bytes) (rest : Stack) : Stack :=
  (List.ofFn items).reverse ++ rest

/-- The instruction takes so many operands, and its outcome depends on their values and on the stack
below them. On a vector, with numbers of sixty-four bits, it gives the same and never overflows. -/
structure StackInstruction.Computes (i : StackInstruction) (operands : Nat)
    (outcome : (Fin operands → Int) → Stack → Except FailureCode Stack) : Prop where
  missing : ∀ s : Stack, s.length < operands → i.run s = .error .stackUnderflow
  long : ∀ (items : Fin operands → Bytes) (rest : Stack), (∃ k, 4 < (items k).length) →
    i.run (rest.under items) = .error .numericOverflow
  short : ∀ (items : Fin operands → Bytes) (rest : Stack), (∀ k, (items k).length ≤ 4) →
    ∃ x, (∀ k, Number.decode? (items k) = some (x k)) ∧ i.run (rest.under items) = outcome x rest
  wide : ∀ s : Stack, (∃ t : Stack, i.run s = .ok t ∧ i.onPile s.reverse = .ok t.reverse) ∨
    ∃ e, i.run s = .error e ∧ i.onPile s.reverse = fail e

/-! ## Operands -/

namespace Stack

variable {rest : Stack}

theorem under_one (items : Fin 1 → Bytes) : rest.under items = items 0 :: rest := by
  simp [under, List.ofFn_succ]

theorem under_two (items : Fin 2 → Bytes) : rest.under items = items 1 :: items 0 :: rest := by
  simp [under, List.ofFn_succ]

theorem under_three (items : Fin 3 → Bytes) :
    rest.under items = items 2 :: items 1 :: items 0 :: rest := by
  simp [under, List.ofFn_succ]

/-- A number on top is what is demanded if it is not zero. -/
theorem verify_encode (n : Int) (rest : Stack) :
    verify (Number.encode n :: rest) = if n ≠ 0 then .ok rest else .error .verify := by
  rw [verify]
  refine if_congr ?_ rfl rfl
  rw [Number.truthy_iff_value, Number.value_encode]

end Stack

namespace StackInstruction

open Stack

theorem wide_of_run (i : StackInstruction) (s : Stack) :
    (∃ t : Stack, i.run s = .ok t ∧ i.onPile s.reverse = .ok t.reverse) ∨
      ∃ e, i.run s = .error e ∧ i.onPile s.reverse = fail e := by
  rw [onPile_reverse]
  cases i.run s with
  | ok t => exact Or.inl ⟨t, rfl, rfl⟩
  | error e => exact Or.inr ⟨e, rfl, rfl⟩

theorem computes_unary (operation : UnaryOperation) : (unary operation).Computes 1 fun x rest =>
    .ok (Number.encode (operation.apply (x 0)) :: rest) where
  missing s few := by
    obtain rfl : s = [] := List.length_eq_zero_iff.mp (Nat.lt_one_iff.mp few)
    rfl
  long items rest := by
    rintro ⟨k, long⟩
    obtain rfl := Subsingleton.elim k 0
    rw [under_one, run, Stack.unary, operand_of_long long]
    rfl
  short items rest short := by
    refine ⟨fun k => Number.value (items k), fun k => Number.decode?_of_short (short k), ?_⟩
    rw [under_one, run, Stack.unary, operand_of_short (short 0)]
    rfl
  wide := wide_of_run _

theorem computes_binary (operation : BinaryOperation) : (binary operation).Computes 2 fun x rest =>
    .ok (Number.encode (operation.apply (x 0) (x 1)) :: rest) where
  missing s few := by
    rcases s with _ | ⟨b, _ | ⟨a, s⟩⟩
    · rfl
    · rfl
    · exact absurd few (by simp)
  long items rest := by
    rintro ⟨k, long⟩
    rw [under_two, run, Stack.binary]
    -- the operands are read from the top, and the first long one ends the reading
    by_cases top : 4 < (items 1).length
    · rw [operand_of_long top]
      rfl
    · have deep : 4 < (items 0).length := by
        fin_cases k
        · exact long
        · exact absurd long top
      rw [operand_of_short (Nat.le_of_not_lt top), ok_bind, operand_of_long deep]
      rfl
  short items rest short := by
    refine ⟨fun k => Number.value (items k), fun k => Number.decode?_of_short (short k), ?_⟩
    rw [under_two, run, Stack.binary, operand_of_short (short 1), ok_bind,
      operand_of_short (short 0)]
    rfl
  wide := wide_of_run _

theorem computes_within : within.Computes 3 fun x rest =>
    .ok (Number.encode (NumericOpcode.truth (x 1 ≤ x 0 ∧ x 0 < x 2)) :: rest) where
  missing s few := by
    rcases s with _ | ⟨c, _ | ⟨b, _ | ⟨a, s⟩⟩⟩
    · rfl
    · rfl
    · rfl
    · exact absurd few (by simp)
  long items rest := by
    rintro ⟨k, long⟩
    rw [under_three, run, Stack.within]
    by_cases top : 4 < (items 2).length
    · rw [operand_of_long top]
      rfl
    rw [operand_of_short (Nat.le_of_not_lt top), ok_bind]
    by_cases second : 4 < (items 1).length
    · rw [operand_of_long second]
      rfl
    · have deep : 4 < (items 0).length := by
        fin_cases k
        · exact long
        · exact absurd long second
        · exact absurd long top
      rw [operand_of_short (Nat.le_of_not_lt second), ok_bind, operand_of_long deep]
      rfl
  short items rest short := by
    refine ⟨fun k => Number.value (items k), fun k => Number.decode?_of_short (short k), ?_⟩
    rw [under_three, run, Stack.within, operand_of_short (short 2), ok_bind,
      operand_of_short (short 1), ok_bind, operand_of_short (short 0)]
    simp only [Number.ofBool, NumericOpcode.truth, decide_eq_true_eq]
    rfl
  wide := wide_of_run _

theorem run_numEqualVerify (s : Stack) :
    numEqualVerify.run s = (binary .equal).run s >>= Stack.verify := rfl

/-- The comparison leaves nothing, and what it demands is that the operands be equal. -/
theorem computes_numEqualVerify : numEqualVerify.Computes 2 fun x rest =>
    if x 0 = x 1 then .ok rest else .error .verify where
  missing s few := by
    rw [run_numEqualVerify, (computes_binary .equal).missing s few]
    rfl
  long items rest long := by
    rw [run_numEqualVerify, (computes_binary .equal).long items rest long]
    rfl
  short items rest short := by
    obtain ⟨x, read, compared⟩ := (computes_binary .equal).short items rest short
    refine ⟨x, read, ?_⟩
    rw [run_numEqualVerify, compared, ok_bind, verify_encode, BinaryOperation.apply]
    by_cases same : x 0 = x 1
    · rw [if_pos same, if_pos one_ne_zero, if_pos same]
    · rw [if_neg same, if_neg (not_not_intro rfl), if_neg same]
  wide := wide_of_run _

end StackInstruction

/-! ## Opcodes -/

namespace NumericOpcode

variable {code : UInt8}

/-- The opcode has an instruction, which leaves the result of the opcode in place of the operands. The
result of operands that can be read takes five bytes at most, and it is what is read from them. -/
def Executes (o : NumericOpcode) : Prop :=
  ∃ i, Opcode.instructionOf? o.code = some (.stack i) ∧
    (i.Computes o.operands fun x rest => .ok (Number.encode (o.result x) :: rest)) ∧
    ∀ x, (∀ k, ∃ item : Bytes, item.length ≤ 4 ∧ Number.decode? item = some (x k)) →
      (Number.encode (o.result x)).length ≤ 5 ∧
        Number.decode? (Number.encode (o.result x)) = some (o.result x)

theorem natAbs_lt_of_decode? {item : Bytes} {n : Int} (short : item.length ≤ 4)
    (read : Number.decode? item = some n) : n.natAbs < 2 ^ 31 := by
  rw [Number.decode?_of_short short] at read
  cases read
  exact Stack.natAbs_operand_lt (Stack.operand_of_short short)

theorem fits_of_natAbs_lt {n : Int} (small : n.natAbs < 256 ^ 4) :
    (Number.encode n).length ≤ 5 ∧ Number.decode? (Number.encode n) = some n := by
  have short := Number.length_encode_le 4 small
  exact ⟨short, Number.decode?_eq_some_iff.mpr ⟨by omega, Number.value_encode n⟩⟩

theorem executes_unary (operation : UnaryOperation)
    (known : Opcode.instructionOf? code = some (.stack (.unary operation))) :
    Executes ⟨code, 1, fun x => operation.apply (x 0)⟩ := by
  refine ⟨_, known, StackInstruction.computes_unary operation, fun x operands => ?_⟩
  obtain ⟨item, short, read⟩ := operands 0
  have small := natAbs_lt_of_decode? short read
  have result := operation.natAbs_apply_le (x 0)
  exact fits_of_natAbs_lt (by dsimp only; omega)

theorem executes_binary (operation : BinaryOperation)
    (known : Opcode.instructionOf? code = some (.stack (.binary operation))) :
    Executes ⟨code, 2, fun x => operation.apply (x 0) (x 1)⟩ := by
  refine ⟨_, known, StackInstruction.computes_binary operation, fun x operands => ?_⟩
  obtain ⟨item, short, read⟩ := operands 0
  obtain ⟨item', short', read'⟩ := operands 1
  have small := natAbs_lt_of_decode? short read
  have small' := natAbs_lt_of_decode? short' read'
  have result := operation.natAbs_apply_le (x 0) (x 1)
  exact fits_of_natAbs_lt (by dsimp only; omega)

theorem executes_within (known : Opcode.instructionOf? code = some (.stack .within)) :
    Executes ⟨code, 3, fun x => truth (x 1 ≤ x 0 ∧ x 0 < x 2)⟩ := by
  refine ⟨_, known, StackInstruction.computes_within, fun x _ => fits_of_natAbs_lt ?_⟩
  dsimp only [truth]
  split <;> decide

theorem executes_of_mem {o : NumericOpcode} (member : o ∈ all) : o.Executes := by
  simp only [all, List.mem_cons, List.not_mem_nil, or_false] at member
  rcases member with rfl | rfl | rfl | rfl | rfl | rfl | rfl | rfl | rfl | rfl | rfl | rfl | rfl | rfl |
    rfl | rfl | rfl | rfl | rfl
  · exact executes_unary .increment rfl
  · exact executes_unary .decrement rfl
  · exact executes_unary .negate rfl
  · simp only [Int.abs_eq_natAbs]
    exact executes_unary .abs rfl
  · exact executes_unary .not rfl
  · exact executes_unary .nonzero rfl
  · exact executes_binary .add rfl
  · exact executes_binary .sub rfl
  · exact executes_binary .both rfl
  · exact executes_binary .either rfl
  · exact executes_binary .equal rfl
  · exact executes_binary .notEqual rfl
  · exact executes_binary .less rfl
  · exact executes_binary .greater rfl
  · exact executes_binary .lessOrEqual rfl
  · exact executes_binary .greaterOrEqual rfl
  · exact executes_binary .min rfl
  · exact executes_binary .max rfl
  · exact executes_within rfl

/-- Arithmetic is exact: each numeric opcode leaves the number that it computes, and the one that leaves
nothing demands that its operands be equal. -/
theorem executes_all : (∀ o ∈ all, o.Executes) ∧
    ∃ i, Opcode.instructionOf? 0x9d = some (.stack i) ∧
      i.Computes 2 fun x rest => if x 0 = x 1 then .ok rest else .error .verify :=
  ⟨fun _ => executes_of_mem, _, rfl, StackInstruction.computes_numEqualVerify⟩

/-- A one of two bytes is subtracted from a negative zero; the same opcode refuses an operand of five
bytes, and a single operand. -/
theorem executes_all_subtraction : ∃ i, Opcode.instructionOf? 0x94 = some (.stack i) ∧
    i.run [[0x01, 0x00], [0x80], [0x07]] = .ok [[0x81], [0x07]] ∧
    i.run [[0x01], [0x01, 0x00, 0x00, 0x00, 0x00]] = .error .numericOverflow ∧
    i.run [[0x01]] = .error .stackUnderflow := by
  obtain ⟨i, known, computes, -⟩ :=
    executes_all.1 ⟨0x94, 2, fun x => x 0 - x 1⟩ (by simp [all])
  refine ⟨i, known, ?_, ?_, computes.missing [[0x01]] (by decide)⟩
  · obtain ⟨x, read, ran⟩ := computes.short ![[0x80], [0x01, 0x00]] [[0x07]] (by decide)
    have zero : x 0 = 0 := Option.some.inj ((read 0).symm.trans (by decide))
    have one : x 1 = 1 := Option.some.inj ((read 1).symm.trans (by decide))
    dsimp only at ran
    rw [zero, one, show Number.encode (0 - 1) = [0x81] by cbv] at ran
    exact ran
  · exact computes.long ![[0x01, 0x00, 0x00, 0x00, 0x00], [0x01]] [] ⟨0, by decide⟩

end NumericOpcode

end CoinScript
