import CoinScript.Proofs.Script.Blocks
import CoinScript.Proofs.Script.Numbers
import CoinScript.Proofs.Script.Steps
import Mathlib.Control.Monad.Basic
import Mathlib.Data.List.GetD

/-!
# What a run can hold

Between two commands the stacks are within their limit, and so is the number of
opcodes that were counted. A command adds three items at most before the size
of the stacks is checked again. An item is as long as a push of the script at
most, or has thirty-two bytes at most: what instructions write themselves are
numbers, truth values and digests. The commands of a redeemed script have no
longer pushes, because they were read from the data of a push.
-/

namespace CoinScript

/-! ## Items -/

/-- No item is longer than `bound`. -/
def Stack.Within (bound : Nat) (s : Stack) : Prop := ∀ item ∈ s, item.length ≤ bound

namespace Stack

variable {bound : Nat} {s t : Stack} {item : Bytes}

@[simp] theorem within_nil : Within bound [] := fun _ member => nomatch member

@[simp] theorem within_cons : Within bound (item :: s) ↔ item.length ≤ bound ∧ s.Within bound :=
  List.forall_mem_cons

theorem Within.sublist (within : s.Within bound) (part : t.Sublist s) : t.Within bound :=
  fun item member => within item (part.subset member)

/-- The new stack has at most three items more, and no longer ones than `bound`. -/
def Holds (bound : Nat) (s t : Stack) : Prop := t.length ≤ s.length + 3 ∧ t.Within bound

theorem Holds.sublist {u : Stack} (holds : Holds bound s t) (part : u.Sublist t) :
    Holds bound s u :=
  ⟨part.length_le.trans holds.1, holds.2.sublist part⟩

theorem sublist_of_verify (ran : s.verify = .ok t) : t.Sublist s := by
  cases s with
  | nil => cases ran
  | cons item rest =>
    simp only [verify] at ran
    split at ran
    · cases ran
      exact List.sublist_cons_self _ _
    · cases ran

section Instructions

variable (within : s.Within bound)

include within

theorem holds_of_sublist (part : t.Sublist s) : Holds bound s t :=
  ⟨Nat.le_add_right_of_le part.length_le, within.sublist part⟩

/-- Items that are rearranged, copied or left out. -/
theorem holds_of_subset (subset : t ⊆ s) (length : t.length ≤ s.length + 3) : Holds bound s t :=
  ⟨length, fun item member => within item (subset member)⟩

/-- The item at a depth that was taken from the stack is put on top of some of those left. -/
theorem holds_cons_getD {depth : Nat} {rest others : Stack} (popped : s.popDepth = .ok (depth, rest))
    (part : others.Sublist rest) : Holds bound s (rest.getD depth [] :: others) := by
  obtain ⟨inside, left⟩ := sublist_of_popDepth popped
  refine holds_of_subset within ?_ ?_
  · rw [List.getD_eq_getElem _ _ inside]
    exact List.cons_subset.mpr ⟨left.subset (List.getElem_mem inside), (part.trans left).subset⟩
  · have length := (part.trans left).length_le
    rw [List.length_cons]
    omega

theorem holds_pick (ran : s.pick = .ok t) : Holds bound s t := by
  obtain ⟨⟨depth, rest⟩, popped, same⟩ := bind_eq_ok_iff.mp ran
  cases same
  exact holds_cons_getD within popped (List.Sublist.refl rest)

theorem holds_roll (ran : s.roll = .ok t) : Holds bound s t := by
  obtain ⟨⟨depth, rest⟩, popped, same⟩ := bind_eq_ok_iff.mp ran
  cases same
  exact holds_cons_getD within popped (List.eraseIdx_sublist rest depth)

variable (wide : 32 ≤ bound)

include wide

theorem holds_cons (short : item.length ≤ 32) (part : t.Sublist s) : Holds bound s (item :: t) := by
  have length := part.length_le
  exact ⟨by rw [List.length_cons]; omega, within_cons.mpr ⟨by omega, within.sublist part⟩⟩

theorem holds_ofBool (b : Bool) (part : t.Sublist s) : Holds bound s (Number.ofBool b :: t) := by
  refine holds_cons within wide ?_ part
  have short := Number.length_ofBool_le b
  omega

theorem holds_encode {n : Int} (small : n.natAbs < 256 ^ 8) (part : t.Sublist s) :
    Holds bound s (Number.encode n :: t) := by
  refine holds_cons within wide ?_ part
  have short := Number.length_encode_le 8 small
  omega

theorem holds_equal (ran : s.equal = .ok t) : Holds bound s t := by
  unfold equal at ran
  split at ran
  · rename_i a b rest
    cases ran
    exact holds_ofBool within wide _ ((List.sublist_cons_self b rest).cons a)
  · cases ran

theorem holds_unary (operation : UnaryOperation) (ran : s.unary operation.apply = .ok t) :
    Holds bound s t := by
  unfold unary at ran
  split at ran
  · cases ran
  · rename_i a rest
    obtain ⟨x, read, same⟩ := bind_eq_ok_iff.mp ran
    cases same
    have small := natAbs_operand_lt read
    have result := operation.natAbs_apply_le x
    exact holds_encode within wide (by omega) (List.sublist_cons_self a rest)

theorem holds_binary (operation : BinaryOperation) (ran : s.binary operation.apply = .ok t) :
    Holds bound s t := by
  unfold binary at ran
  split at ran
  · rename_i b a rest
    obtain ⟨y, read_y, ran⟩ := bind_eq_ok_iff.mp ran
    obtain ⟨x, read_x, same⟩ := bind_eq_ok_iff.mp ran
    cases same
    have small_y := natAbs_operand_lt read_y
    have small_x := natAbs_operand_lt read_x
    have result := operation.natAbs_apply_le x y
    exact holds_encode within wide (by omega) ((List.sublist_cons_self a rest).cons b)
  · cases ran

theorem holds_within (ran : s.within = .ok t) : Holds bound s t := by
  unfold Stack.within at ran
  split at ran
  · rename_i c b a rest
    obtain ⟨upper, -, ran⟩ := bind_eq_ok_iff.mp ran
    obtain ⟨lower, -, ran⟩ := bind_eq_ok_iff.mp ran
    obtain ⟨x, -, same⟩ := bind_eq_ok_iff.mp ran
    cases same
    exact holds_ofBool within wide _ (((List.sublist_cons_self a rest).cons b).cons c)
  · cases ran

end Instructions

end Stack

open Stack

/-- An instruction that writes a constant writes a small one. -/
def Instruction.hasSmallConstant : Instruction → Bool
  | .stack (.number n) => n.natAbs ≤ 16
  | _ => true

theorem Opcode.hasSmallConstant {code : UInt8} {i : Instruction}
    (known : instructionOf? code = some i) : i.hasSmallConstant = true := by
  have listed : ∀ entry ∈ table, ∀ i ∈ entry.instruction, i.hasSmallConstant = true := by
    decide
  obtain ⟨entry, member, -, instruction⟩ := exists_entry known
  exact listed entry member i instruction

theorem StackInstruction.holds_run {bound : Nat} {s t : Stack} {i : StackInstruction}
    (wide : 32 ≤ bound) (within : s.Within bound) (few : s.length < 2 ^ 64)
    (constant : (Instruction.stack i).hasSmallConstant = true) (ran : i.run s = .ok t) :
    Holds bound s t := by
  cases i
  case number n =>
    cases ran
    have small : n.natAbs ≤ 16 := of_decide_eq_true constant
    exact holds_encode within wide (by omega) (List.Sublist.refl s)
  case depth =>
    cases ran
    exact holds_encode within wide (by omega) (List.Sublist.refl s)
  case verify => exact holds_of_sublist within (sublist_of_verify ran)
  case pick => exact holds_pick within ran
  case roll => exact holds_roll within ran
  case equal => exact holds_equal within wide ran
  case equalVerify =>
    obtain ⟨u, compared, verified⟩ := bind_eq_ok_iff.mp ran
    exact (holds_equal within wide compared).sublist (sublist_of_verify verified)
  case unary operation => exact holds_unary within wide operation ran
  case binary operation => exact holds_binary within wide operation ran
  case numEqualVerify =>
    obtain ⟨u, compared, verified⟩ := bind_eq_ok_iff.mp ran
    exact (holds_binary within wide .equal compared).sublist (sublist_of_verify verified)
  case within => exact holds_within within wide ran
  case size =>
    cases s with
    | nil => cases ran
    | cons a rest =>
      cases ran
      have item := (within_cons.mp within).1
      have written := Number.length_encode_natCast_le a.length
      exact ⟨by simp, within_cons.mpr ⟨by omega, within⟩⟩
  case hash function =>
    cases s with
    | nil => cases ran
    | cons a rest =>
      cases ran
      exact holds_cons within wide (function.length_digest_le a) (List.sublist_cons_self a rest)
  case ifDup =>
    cases s with
    | nil => cases ran
    | cons a rest =>
      cases ran
      split
      · exact holds_of_subset within (by simp) (by simp)
      · exact holds_of_subset within (by simp) (by simp)
  -- All others rearrange, copy or leave out the topmost items, if there are enough of them.
  case skip => cases ran; exact holds_of_sublist within (List.Sublist.refl s)
  case stray | abort => cases ran
  case drop | dup =>
    cases s with
    | nil => cases ran
    | cons a s => cases ran; exact holds_of_subset within (by grind) (by grind)
  case drop2 | dup2 | nip | over1 | swap | tuck =>
    rcases s with _ | ⟨a, _ | ⟨b, s⟩⟩ <;> cases ran
    exact holds_of_subset within (by grind) (by grind)
  case dup3 | rot =>
    rcases s with _ | ⟨a, _ | ⟨b, _ | ⟨c, s⟩⟩⟩ <;> cases ran
    exact holds_of_subset within (by grind) (by grind)
  case over2 | swap2 =>
    rcases s with _ | ⟨a, _ | ⟨b, _ | ⟨c, _ | ⟨d, s⟩⟩⟩⟩ <;> cases ran
    exact holds_of_subset within (by grind) (by grind)
  case rot2 =>
    rcases s with _ | ⟨a, _ | ⟨b, _ | ⟨c, _ | ⟨d, _ | ⟨e, _ | ⟨f, s⟩⟩⟩⟩⟩⟩ <;> cases ran
    exact holds_of_subset within (by grind) (by simp)

namespace SignatureCheck

variable {bound z : Nat} {s t : Stack}

theorem takeCounted_cons {limit : Nat} {count : Bytes} : takeCounted limit (count :: s) =
    operand count >>= fun n =>
      if n < 0 ∨ (limit : Int) < n then .error .keyCount
      else if (s.length : Int) < n then .error .stackUnderflow
      else .ok ((s.take n.toNat).reverse, s.drop n.toNat) := by
  rw [takeCounted, popNumber]
  cases operand count with
  | error e => rfl
  | ok n =>
    simp only [ok_bind, pure_bind]
    split
    · rfl
    · split <;> rfl

/-- The items that are taken lie between their count and what remains. -/
theorem takeCounted_eq_ok_iff {limit : Nat} {items : List Bytes} :
    takeCounted limit s = .ok (items, t) ↔ ∃ count, operand count = .ok (items.length : Int) ∧
      items.length ≤ limit ∧ s = count :: (items.reverse ++ t) := by
  constructor
  · intro taken
    rcases s with _ | ⟨count, rest⟩
    · cases taken
    rw [takeCounted_cons] at taken
    obtain ⟨n, read, taken⟩ := bind_eq_ok_iff.mp taken
    split at taken
    · cases taken
    split at taken
    · cases taken
    cases taken
    have length : ((rest.take n.toNat).reverse.length : Int) = n := by
      rw [List.length_reverse, List.length_take]
      omega
    refine ⟨count, by rwa [length], by omega, ?_⟩
    rw [List.reverse_reverse, List.take_append_drop]
  · rintro ⟨count, read, few, rfl⟩
    have length : items.reverse.length = items.length := List.length_reverse
    rw [takeCounted_cons, read, ok_bind, if_neg (by omega), List.length_append, if_neg (by omega),
      Int.toNat_natCast, List.take_left' length, List.drop_left' length, List.reverse_reverse]

theorem sublist_of_takeCounted {limit : Nat} {items : List Bytes}
    (taken : takeCounted limit s = .ok (items, t)) : t.Sublist s := by
  obtain ⟨count, -, -, rfl⟩ := takeCounted_eq_ok_iff.mp taken
  exact (List.sublist_append_right _ t).cons count

variable (wide : 32 ≤ bound) (within : s.Within bound)

include wide within

theorem holds_single (ran : (single z s).result = .ok t) : Holds bound s t := by
  unfold single at ran
  split at ran
  · rename_i key sig rest
    obtain ⟨p, -, ran⟩ := Traced.result_bind_eq_ok_iff.mp ran
    obtain ⟨signature, -, ran⟩ := Traced.result_bind_eq_ok_iff.mp ran
    obtain ⟨accepted, -, same⟩ := Traced.result_bind_eq_ok_iff.mp ran
    cases same
    exact holds_ofBool within wide accepted ((List.sublist_cons_self sig rest).cons key)
  · cases ran

theorem holds_multiple (ran : (multiple z s).result = .ok t) : Holds bound s t := by
  obtain ⟨⟨keys, u⟩, first, ran⟩ := Traced.result_bind_eq_ok_iff.mp ran
  obtain ⟨⟨sigs, v⟩, second, ran⟩ := Traced.result_bind_eq_ok_iff.mp ran
  have upper := sublist_of_takeCounted (Traced.result_lift_eq_ok_iff.mp first)
  have lower := sublist_of_takeCounted (Traced.result_lift_eq_ok_iff.mp second)
  cases v with
  | nil => cases ran
  | cons unused rest =>
    obtain ⟨points, -, ran⟩ := Traced.result_bind_eq_ok_iff.mp ran
    obtain ⟨signatures, -, ran⟩ := Traced.result_bind_eq_ok_iff.mp ran
    obtain ⟨matched, -, same⟩ := Traced.result_bind_eq_ok_iff.mp ran
    cases same
    exact holds_ofBool within wide matched
      ((List.sublist_cons_self unused rest).trans (lower.trans upper))

end SignatureCheck

theorem SignatureInstruction.holds_run {bound z : Nat} {s t : Stack} {i : SignatureInstruction}
    (wide : 32 ≤ bound) (within : s.Within bound) (ran : (i.run z s).result = .ok t) :
    Holds bound s t := by
  cases i with
  | single demand =>
    obtain ⟨u, checked, ran⟩ := Traced.result_bind_eq_ok_iff.mp ran
    have holds := SignatureCheck.holds_single wide within checked
    cases demand with
    | true => exact holds.sublist (sublist_of_verify (Traced.result_lift_eq_ok_iff.mp ran))
    | false => cases ran; exact holds
  | multiple demand =>
    obtain ⟨u, checked, ran⟩ := Traced.result_bind_eq_ok_iff.mp ran
    have holds := SignatureCheck.holds_multiple wide within checked
    cases demand with
    | true => exact holds.sublist (sublist_of_verify (Traced.result_lift_eq_ok_iff.mp ran))
    | false => cases ran; exact holds

/-! ## Pending pushes -/

/-- Cutting a block makes no new commands. -/
theorem Branches.mem_of_split? {c : Command} {depth : Nat} {inFirst : Bool} {commands : Script}
    {b : Branches} (cut : split? depth inFirst commands = some b)
    (member : c ∈ b.first ∨ c ∈ b.second ∨ c ∈ b.rest) : c ∈ commands := by
  induction commands generalizing depth inFirst b with
  | nil =>
    rw [split?_nil] at cut
    cases cut
  | cons d rest ih =>
    rcases split?_cons_cases d depth with ⟨rfl, alternative⟩ | ⟨rfl, closing⟩ | ⟨next, copied, -⟩
    · rw [split?_zero_cons_alternative alternative] at cut
      exact List.mem_cons_of_mem d (ih cut member)
    · rw [split?_zero_cons_closing closing] at cut
      cases cut
      simpa using Or.inr member
    · rw [copied] at cut
      obtain ⟨b', cut', rfl⟩ := Option.map_eq_some_iff.mp cut
      have split : c = d ∨ c ∈ b'.first ∨ c ∈ b'.second ∨ c ∈ b'.rest := by
        cases inFirst <;>
          simp only [cons, List.mem_cons, Bool.false_eq_true, if_false, if_true] at member <;> tauto
      rcases split with rfl | member'
      · exact List.mem_cons_self
      · exact List.mem_cons_of_mem d (ih cut' member')

theorem Branches.mem_of_choose {c : Command} {commands : Script} {b : Branches}
    (cut : ofBlock? commands = some b) {condition : Bool} (member : c ∈ b.choose condition) :
    c ∈ commands := by
  refine mem_of_split? cut ?_
  rcases List.mem_append.mp member with branch | behind
  · split at branch
    · exact Or.inl branch
    · exact Or.inr (Or.inl branch)
  · exact Or.inr (Or.inr behind)

/-- Opcodes above the constants are counted. -/
def Command.isCounted : Command → Bool
  | .op code => Opcode.lastConstant < code
  | .push _ => false

namespace Script

/-- The length of the longest push. -/
def longestPush : Script → Nat
  | [] => 0
  | .op _ :: rest => longestPush rest
  | .push data :: rest => max data.length (longestPush rest)

theorem length_le_longestPush {s : Script} {data : Bytes} (member : .push data ∈ s) :
    data.length ≤ s.longestPush := by
  induction s with
  | nil => cases member
  | cons c rest ih =>
    rcases List.mem_cons.mp member with rfl | later
    · exact Nat.le_max_left _ _
    · cases c with
      | op code => exact ih later
      | push other => exact (ih later).trans (Nat.le_max_right _ _)

theorem length_le_weight {s : Script} {data : Bytes} (member : .push data ∈ s) :
    data.length ≤ s.weight := by
  induction s with
  | nil => cases member
  | cons c rest ih =>
    rw [weight_cons]
    rcases List.mem_cons.mp member with rfl | later
    · simp only [Command.weight]
      omega
    · have := ih later
      omega

end Script

namespace State

variable {settings : ScriptSettings} {bound z : Nat} {s t u : State} {c : Command} {rest : Script}

/-- No item and no pending push is longer than `bound`. -/
structure Fits (bound : Nat) (s : State) : Prop where
  stack : s.stack.Within bound
  alt : s.alt.Within bound
  pushes : ∀ data, .push data ∈ s.pending → data.length ≤ bound

/-! ## One command -/

theorem fits_of_altStack {i : AltStackInstruction} {main alt : Stack} (fits : s.Fits bound)
    (ran : i.run s.stack s.alt = .ok (main, alt)) :
    main.Within bound ∧ alt.Within bound ∧ main.length + alt.length = s.items := by
  obtain ⟨pending, stack, below, n⟩ := s
  obtain ⟨stack_fits, alt_fits, -⟩ := fits
  cases i with
  | put =>
    cases stack with
    | nil => cases ran
    | cons item stack =>
      cases ran
      obtain ⟨item_fits, stack_fits⟩ := within_cons.mp stack_fits
      exact ⟨stack_fits, within_cons.mpr ⟨item_fits, alt_fits⟩,
        by simp only [items, List.length_cons]; omega⟩
  | take =>
    cases below with
    | nil => cases ran
    | cons item below =>
      cases ran
      obtain ⟨item_fits, alt_fits⟩ := within_cons.mp alt_fits
      exact ⟨within_cons.mpr ⟨item_fits, stack_fits⟩, alt_fits,
        by simp only [items, List.length_cons]; omega⟩

theorem fits_of_chooseBranch {negated : Bool} (fits : s.Fits bound)
    (chosen : chooseBranch negated s = .ok t) :
    t.Fits bound ∧ t.items ≤ s.items := by
  obtain ⟨condition, stack, b, top, cut, rfl⟩ := exists_of_chooseBranch chosen
  have stack_fits := fits.stack
  rw [top] at stack_fits
  refine ⟨⟨(within_cons.mp stack_fits).2, fits.alt, ?_⟩, ?_⟩
  · exact fun data member => fits.pushes data (Branches.mem_of_choose cut member)
  · simp only [items, top, List.length_cons]
    omega

theorem fits_of_apply {i : Instruction} (wide : 32 ≤ bound) (fits : s.Fits bound)
    (few : s.stack.length < 2 ^ 64) (constant : i.hasSmallConstant = true)
    (applied : (i.apply z s).result = .ok t) :
    t.Fits bound ∧ t.items ≤ s.items + 3 := by
  have held {main : Stack} (holds : Holds bound s.stack main) :
      Fits bound { s with stack := main } ∧ items { s with stack := main } ≤ s.items + 3 := by
    obtain ⟨grown, within⟩ := holds
    exact ⟨⟨within, fits.alt, fits.pushes⟩, by simp only [items]; omega⟩
  rcases apply_cases applied with ⟨j, main, rfl, ran, rfl⟩ | ⟨negated, rfl, chosen⟩ |
    ⟨j, main, alt, rfl, ran, rfl⟩ | ⟨j, main, rfl, ran, rfl⟩
  · exact held (j.holds_run wide fits.stack few constant ran)
  · obtain ⟨fits, fewer⟩ := fits_of_chooseBranch fits chosen
    exact ⟨fits, by omega⟩
  · obtain ⟨main_fits, alt_fits, moved⟩ := fits_of_altStack fits ran
    exact ⟨⟨main_fits, alt_fits, fits.pushes⟩, by simp only [items] at moved ⊢; omega⟩
  · exact held (j.holds_run wide fits.stack ran)

theorem fits_of_execute (wide : 32 ≤ bound) (fits : s.Fits bound) (few : s.stack.length < 2 ^ 64)
    (payload : ∀ data, c = .push data → data.length ≤ bound)
    (executed : (s.execute settings z c).result = .ok t) :
    t.Fits bound ∧ t.items ≤ s.items + 3 := by
  cases c with
  | op code =>
    obtain ⟨-, i, known, applied⟩ := result_execute_op_iff.mp executed
    have held : Fits bound { s with executed := counted code s.executed } :=
      ⟨fits.stack, fits.alt, fits.pushes⟩
    exact fits_of_apply (s := { s with executed := counted code s.executed }) wide held few
      (Opcode.hasSmallConstant known) applied
  | push data =>
    have short := payload data rfl
    rcases execute_push_cases executed with ⟨-, rfl⟩ | ⟨hash, commands, -, -, -, parsed, rfl⟩
    · exact ⟨⟨within_cons.mpr ⟨short, fits.stack⟩, fits.alt, fits.pushes⟩,
        by simp only [items, List.length_cons]; omega⟩
    · -- The new commands were read from the data, which does not stay on the stack.
      refine ⟨⟨fits.stack, fits.alt, ?_⟩, Nat.le_add_right _ 3⟩
      intro other member
      exact (Script.length_le_weight member).trans ((Script.weight_of_parseRaw parsed).trans short)

theorem executed_of_apply {i : Instruction} (applied : (i.apply z s).result = .ok t) :
    t.executed = s.executed := by
  rcases apply_cases applied with ⟨j, main, rfl, -, rfl⟩ | ⟨negated, rfl, chosen⟩ |
    ⟨j, main, alt, rfl, -, rfl⟩ | ⟨j, main, rfl, -, rfl⟩
  · rfl
  · obtain ⟨condition, stack, b, -, -, rfl⟩ := exists_of_chooseBranch chosen
    rfl
  · rfl
  · rfl

/-- A command is counted if it is an opcode above the constants, and then there was room for it. -/
theorem executed_of_execute (executed : (s.execute settings z c).result = .ok t) :
    t.executed = s.executed + (if c.isCounted then 1 else 0) ∧
      (s.executed ≤ settings.maxOps → t.executed ≤ settings.maxOps) := by
  cases c with
  | op code =>
    obtain ⟨room, i, -, applied⟩ := result_execute_op_iff.mp executed
    have same : t.executed = counted code s.executed := executed_of_apply applied
    by_cases counts : Opcode.lastConstant < code
    · have room := room counts
      simp only [counted, counts, if_true] at same
      exact ⟨by simpa [Command.isCounted, counts] using same, fun _ => by omega⟩
    · simp only [counted, counts, if_false] at same
      exact ⟨by simpa [Command.isCounted, counts] using same, fun _ => by omega⟩
  | push data =>
    rcases execute_push_cases executed with ⟨-, rfl⟩ | ⟨hash, commands, -, -, -, -, rfl⟩
    · exact ⟨rfl, id⟩
    · exact ⟨rfl, id⟩

/-! ## Runs -/

/-- The commands are executed one after another, none with a failure, from the first state to the
second one. -/
inductive Executes (settings : ScriptSettings) (z : Nat) : List Command → State → State → Prop
  | refl (s : State) : Executes settings z [] s s
  | tail {commands : List Command} {s t u : State} {c : Command} {rest : Script}
      (path : Executes settings z commands s t) (pending : t.pending = c :: rest)
      (stepped : (step settings z (t.resume rest) c).result = .ok u) :
      Executes settings z (commands ++ [c]) s u

/-- The state while a command is executed: behind it, before the size of the stacks is checked, or in
a push, before its data is redeemed. -/
def Amid (settings : ScriptSettings) (z : Nat) (s : State) (c : Command) (t : State) : Prop :=
  (s.execute settings z c).result = .ok t ∨
    ∃ data, c = .push data ∧ t = { s with stack := data :: s.stack }

theorem items_of_amid (wide : 32 ≤ bound) (fits : s.Fits bound) (few : s.stack.length < 2 ^ 64)
    (payload : ∀ data, c = .push data → data.length ≤ bound) (amid : Amid settings z s c t) :
    t.items ≤ s.items + 3 := by
  rcases amid with executed | ⟨data, -, rfl⟩
  · exact (fits_of_execute wide fits few payload executed).2
  · simp only [items, List.length_cons]
    omega

/-- What is kept between two commands. -/
structure WithinLimits (settings : ScriptSettings) (bound : Nat) (s : State) : Prop where
  fits : s.Fits bound
  items : s.items ≤ settings.maxStackSize
  executed : s.executed ≤ settings.maxOps

section Kept

variable (wide : 32 ≤ bound) (word : settings.maxStackSize < 2 ^ 64)

include word in
theorem WithinLimits.few (kept : s.WithinLimits settings bound) : s.stack.length < 2 ^ 64 :=
  (Nat.le_add_right _ _).trans_lt (kept.items.trans_lt word)

theorem WithinLimits.payload (kept : s.WithinLimits settings bound)
    (pending : s.pending = c :: rest) (data : Bytes) (push : c = .push data) : data.length ≤ bound := by
  refine kept.fits.pushes data ?_
  rw [pending, push]
  exact List.mem_cons_self

theorem WithinLimits.resume (kept : s.WithinLimits settings bound)
    (pending : s.pending = c :: rest) :
    (s.resume rest).WithinLimits settings bound := by
  refine ⟨⟨kept.fits.stack, kept.fits.alt, ?_⟩, kept.items, kept.executed⟩
  intro data member
  refine kept.fits.pushes data ?_
  rw [pending]
  exact List.mem_cons_of_mem c member

include wide word

theorem withinLimits_of_step (kept : s.WithinLimits settings bound)
    (pending : s.pending = c :: rest)
    (stepped : (step settings z (s.resume rest) c).result = .ok t) :
    t.WithinLimits settings bound := by
  obtain ⟨executed, size⟩ := result_step_iff.mp stepped
  have ready := kept.resume pending
  obtain ⟨fits, -⟩ :=
    fits_of_execute wide ready.fits (ready.few word) (kept.payload pending) executed
  exact ⟨fits, size, (executed_of_execute executed).2 ready.executed⟩

/-- All counted opcodes of a run add up to the number the state holds. -/
theorem withinLimits_of_executes {commands : List Command}
    (path : Executes settings z commands s t) (kept : s.WithinLimits settings bound) :
    t.WithinLimits settings bound ∧
      t.executed = s.executed + commands.countP Command.isCounted := by
  induction path with
  | refl s => exact ⟨kept, rfl⟩
  | tail _ pending stepped ih =>
    obtain ⟨before, total⟩ := ih kept
    refine ⟨withinLimits_of_step wide word before pending stepped, ?_⟩
    have added := (executed_of_execute (result_step_iff.mp stepped).1).1
    rw [added, State.resume, total, List.countP_append, List.countP_singleton]
    exact Nat.add_assoc _ _ _

end Kept

theorem withinLimits_ofScript (settings : ScriptSettings) (script : Script) :
    (ofScript script).WithinLimits settings (max 32 script.longestPush) := by
  refine ⟨⟨within_nil, within_nil, ?_⟩, Nat.zero_le _, Nat.zero_le _⟩
  intro data member
  exact (Script.length_le_longestPush member).trans (Nat.le_max_right _ _)

/-- However far a script has been executed, its stacks are within their limit, the counted opcodes
are as many as the state says and within theirs, and no item is longer than the longest push of the
script or thirty-two bytes. While the next command is executed, the stacks hold three items more at
most. The limit of the stacks is a machine word. -/
theorem within_limits_of_executes {script : Script} {commands : List Command}
    (word : settings.maxStackSize < 2 ^ 64)
    (path : Executes settings z commands (ofScript script) s) :
    s.items ≤ settings.maxStackSize ∧
      s.executed = commands.countP Command.isCounted ∧ s.executed ≤ settings.maxOps ∧
      (∀ item ∈ s.stack ++ s.alt, item.length ≤ max 32 script.longestPush) ∧
      ∀ c rest t, s.pending = c :: rest → Amid settings z (s.resume rest) c t →
        t.items ≤ settings.maxStackSize + 3 := by
  have wide : 32 ≤ max 32 script.longestPush := Nat.le_max_left _ _
  obtain ⟨kept, total⟩ :=
    withinLimits_of_executes wide word path (withinLimits_ofScript settings script)
  refine ⟨kept.items, total.trans (Nat.zero_add _), kept.executed, ?_, ?_⟩
  · intro item member
    rcases List.mem_append.mp member with main | alt
    · exact kept.fits.stack item main
    · exact kept.fits.alt item alt
  · intro c rest t pending amid
    have ready := kept.resume pending
    have grown := items_of_amid wide ready.fits (ready.few word) (kept.payload pending) amid
    have held := ready.items
    omega

/-- With room for three items, three constants fill the stack. The opcode that copies all three of
them reaches the bound, and its step then fails. -/
theorem within_limits_of_executes_dup3 :
    (step { maxStackSize := 3 } 0 ⟨[], [[0x03], [0x02], [0x01]], [], 0⟩ (.op 0x6f)).result =
        .error (.error ⟨.stackSize, "OP_3DUP"⟩) ∧
      Amid { maxStackSize := 3 } 0 ⟨[], [[0x03], [0x02], [0x01]], [], 0⟩ (.op 0x6f)
        ⟨[], [[0x03], [0x02], [0x01], [0x03], [0x02], [0x01]], [], 1⟩ ∧
      items ⟨[], [[0x03], [0x02], [0x01], [0x03], [0x02], [0x01]], [], 1⟩ ≤ 3 + 3 := by
  have path : Executes { maxStackSize := 3 } 0 [.op 0x51, .op 0x52, .op 0x53]
      (ofScript [.op 0x51, .op 0x52, .op 0x53, .op 0x6f])
      ⟨[.op 0x6f], [[0x03], [0x02], [0x01]], [], 0⟩ := by
    have start : Executes { maxStackSize := 3 } 0 []
        (ofScript [.op 0x51, .op 0x52, .op 0x53, .op 0x6f])
        (ofScript [.op 0x51, .op 0x52, .op 0x53, .op 0x6f]) := .refl _
    have one := start.tail rfl
      (u := ⟨[.op 0x52, .op 0x53, .op 0x6f], [[0x01]], [], 0⟩) (by decide +kernel)
    have two := one.tail rfl
      (u := ⟨[.op 0x53, .op 0x6f], [[0x02], [0x01]], [], 0⟩) (by decide +kernel)
    exact two.tail rfl (by decide +kernel)
  have amid : Amid { maxStackSize := 3 } 0 ⟨[], [[0x03], [0x02], [0x01]], [], 0⟩ (.op 0x6f)
      ⟨[], [[0x03], [0x02], [0x01], [0x03], [0x02], [0x01]], [], 1⟩ :=
    Or.inl (by decide +kernel)
  obtain ⟨-, -, -, -, bounded⟩ := within_limits_of_executes (by decide) path
  exact ⟨by decide +kernel, amid, bounded _ _ _ rfl amid⟩

end State

end CoinScript
