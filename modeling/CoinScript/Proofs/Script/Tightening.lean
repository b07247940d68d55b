import CoinScript.Proofs.Script.Limits
import CoinScript.Proofs.Script.Locking

/-!
# Redemption only refuses

A script that succeeds while payments to a script hash are redeemed also
succeeds when they are not. The two runs are one run up to the first
redemption. There the data of the push has the hash of the template, and
nothing is pending behind the template: without redemption it is executed as
it stands, leaves true, and the run is over, however many more scripts would
have been redeemed. The template counts two opcodes, which a redemption does
not, and it has the data and its own hash on the stack, which a redemption has
taken away before the size of the stacks is checked.
-/

namespace CoinScript

open Script (payToScriptHash)

namespace State

/-- Redemption is switched off, and there is room for two more opcodes and two more items. -/
structure Literal (settings literal : ScriptSettings) : Prop where
  disabled : literal.redeemScripts = false
  ops : settings.maxOps + 2 ≤ literal.maxOps
  items : settings.maxStackSize + 2 ≤ literal.maxStackSize

variable {settings literal : ScriptSettings} {z : Nat} {s t : State} {c : Command} {rest : Script}

/-! ## One step -/

/-- Where nothing is redeemed, both machines take the same step. -/
theorem result_step_literal (wider : Literal settings literal)
    (unredeemed : ¬Redeems settings c s.pending)
    (stepped : (s.step settings z c).result = .ok t) : (s.step literal z c).result = .ok t := by
  have ops := wider.ops
  have items := wider.items
  cases c with
  | op code => exact result_step_op_of_le (by omega) (by omega) stepped
  | push data =>
    obtain ⟨pushed, fits⟩ := (result_step_push_iff (plain_of_not_redeems unredeemed)).mp stepped
    exact (result_step_push_iff (Or.inl wider.disabled)).mpr ⟨pushed, by omega⟩

/-- Where a script is redeemed, the other machine executes the template and succeeds. -/
theorem exists_run_of_redeems (wider : Literal settings literal) (pending : s.pending = c :: rest)
    (redeemed : Redeems settings c rest) (counted : s.executed ≤ settings.maxOps)
    (stepped : (step settings z (s.resume rest) c).result = .ok t) :
    ∃ u, (s.run literal z).result = .ok u ∧ u.succeeds = true := by
  obtain ⟨enabled, ⟨data, rfl⟩, hash, template⟩ := redeemed
  obtain ⟨⟨same, commands, -, rfl⟩, fits⟩ :=
    (result_step_redeem_iff (s := s.resume rest) enabled template).mp stepped
  obtain ⟨rfl, length⟩ := Script.scriptHash?_eq_some_iff.mp template
  obtain ⟨_, stack, alt, n⟩ := s
  cases pending
  have ops := wider.ops
  have items := wider.items
  have held : stack.length + alt.length ≤ settings.maxStackSize := fits
  have below : n ≤ settings.maxOps := counted
  have pushed : (step literal z ⟨payToScriptHash hash, stack, alt, n⟩ (.push data)).result =
      .ok ⟨payToScriptHash hash, data :: stack, alt, n⟩ := by
    refine (result_step_push_iff (Or.inl wider.disabled)).mpr ⟨rfl, ?_⟩
    simp only [State.items, List.length_cons]
    omega
  have compared : (run literal z ⟨payToScriptHash hash, data :: stack, alt, n⟩).result =
      .ok ⟨[], Number.ofBool (hash == Digest.hash160 data) :: stack, alt, n + 2⟩ :=
    result_run_payToScriptHash_iff.mpr ⟨by omega, by omega, rfl⟩
  refine ⟨⟨[], Number.ofBool (hash == Digest.hash160 data) :: stack, alt, n + 2⟩, ?_, ?_⟩
  · rw [result_run_cons rfl, pushed]
    exact compared
  · rw [succeeds_ofBool, same]
    exact beq_self_eq_true hash

/-! ## Runs -/

/-- A run that succeeds also succeeds without redemptions. -/
theorem exists_run_literal (wider : Literal settings literal) (counted : s.executed ≤ settings.maxOps)
    (ran : (s.run settings z).result = .ok t) (succeeds : t.succeeds = true) :
    ∃ u, (s.run literal z).result = .ok u ∧ u.succeeds = true := by
  induction s using induction_on_run settings z with
  | done s pending =>
    rw [result_run_nil pending] at ran
    cases ran
    exact ⟨t, result_run_nil pending, succeeds⟩
  | fails s c rest e pending failed =>
    rw [result_run_cons pending, failed] at ran
    cases ran
  | moves s c rest v pending stepped ih =>
    rw [result_run_cons pending, stepped] at ran
    by_cases redeemed : Redeems settings c rest
    · exact exists_run_of_redeems wider pending redeemed counted stepped
    · have same : (step literal z (s.resume rest) c).result = .ok v :=
        result_step_literal wider redeemed stepped
      have kept : v.executed ≤ settings.maxOps :=
        (executed_of_execute (result_step_iff.mp stepped).1).2 counted
      obtain ⟨u, ran, succeeds⟩ := ih kept ran
      refine ⟨u, ?_, succeeds⟩
      rw [result_run_cons pending]
      exact bind_eq_ok_iff.mpr ⟨v, same, ran⟩

end State

namespace Script

/-- What succeeds with redemption switched on succeeds with it switched off, if there is room for two
more opcodes and two more items. -/
theorem evaluate_without_redemption {settings literal : ScriptSettings}
    (disabled : literal.redeemScripts = false) (ops : settings.maxOps + 2 ≤ literal.maxOps)
    (items : settings.maxStackSize + 2 ≤ literal.maxStackSize) {z : Nat} {script : Script}
    (success : (evaluate settings z script).result = .ok true) :
    (evaluate literal z script).result = .ok true := by
  obtain ⟨t, ran, succeeds⟩ := result_evaluate_iff.mp success
  obtain ⟨u, ran', succeeds'⟩ :=
    State.exists_run_literal ⟨disabled, ops, items⟩ (Nat.zero_le _) ran succeeds
  exact result_evaluate_iff.mpr ⟨u, ran', succeeds'⟩

section Example

/-- A script that redeems the empty script. -/
def redeemsEmpty : Bytes :=
  [0x4c, 0x00, 0xa9, 0x14, 0xb4, 0x72, 0xa2, 0x66, 0xd0, 0xbd, 0x89, 0xc1, 0x37, 0x06, 0xa4, 0x13,
    0x2c, 0xcf, 0xb1, 0x6f, 0x7c, 0x3b, 0x9f, 0xcb, 0x87]

/-- The payment to that script, spent with the item that its redemptions leave on the stack. -/
def spendsTwice : Script :=
  [.push [0x01], .push redeemsEmpty, .op 0xa9,
    .push [0xc0, 0xd0, 0x20, 0x17, 0xd6, 0x35, 0x8f, 0x9a, 0x75, 0xdf, 0x72, 0xa5, 0x65, 0x21, 0xc2,
      0x09, 0xcd, 0xaa, 0xbd, 0x5f], .op 0x87]

/-- Two scripts are redeemed, one inside the other, with no opcode counted and one item on the stack.
Without redemption the same script needs two opcodes and three items, and not less. -/
theorem evaluate_without_redemption_twice :
    (evaluate { maxOps := 0, maxStackSize := 1 } 0 spendsTwice).result = .ok true ∧
      (evaluate { redeemScripts := false, maxOps := 2, maxStackSize := 3 } 0 spendsTwice).result =
        .ok true ∧
      (evaluate { redeemScripts := false, maxOps := 1, maxStackSize := 3 } 0 spendsTwice).result =
        .error (.error ⟨.opCount, "OP_EQUAL"⟩) ∧
      (evaluate { redeemScripts := false, maxOps := 2, maxStackSize := 2 } 0 spendsTwice).result =
        .error (.error ⟨.stackSize, "OP_PUSHDATA"⟩) := by
  have success : (evaluate { maxOps := 0, maxStackSize := 1 } 0 spendsTwice).result = .ok true := by
    decide +kernel
  have widened : (evaluate { redeemScripts := false, maxOps := 2, maxStackSize := 3 } 0
      spendsTwice).result = .ok true :=
    evaluate_without_redemption rfl (by decide) (by decide) success
  exact ⟨success, widened, by decide +kernel, by decide +kernel⟩

end Example

end Script

end CoinScript
