import CoinScript.Proofs.Script.RoundTrip
import CoinScript.Proofs.Script.Steps
import Mathlib.Control.Monad.Basic

/-!
# Payments to a script hash that are spent by pushes

An unlocking script that has nothing but pushes stands in front of the
template of a payment to a script hash. None of the pushes but the last is
redeemed, whatever their data: more than the template is left pending behind
them. The data of the last one is taken back from the stack before the size of
the stacks is checked. The commands of the redeemed script therefore start with
exactly the data of the other pushes on the main stack, nothing on the second
one, and no opcode counted.
-/

namespace CoinScript

open Script (payToScriptHash hashLength)

theorem Script.scriptHash?_of_long {s : Script} (long : 3 < s.length) : scriptHash? s = none := by
  cases template : scriptHash? s with
  | none => rfl
  | some hash =>
    have three : s.length = 3 :=
      congrArg List.length (scriptHash?_eq_some_iff.mp template).1
    omega

namespace State

variable {settings : ScriptSettings} {z n : Nat} {stack alt : Stack}

/-- In front of more commands than the template has, pushes leave their data on the stack. -/
theorem result_run_pushes {pushes : List Bytes} {rest : Script} (long : 3 < rest.length)
    (fits : pushes.length + stack.length + alt.length ≤ settings.maxStackSize) :
    (run settings z ⟨pushes.map .push ++ rest, stack, alt, n⟩).result =
      (run settings z ⟨rest, pushes.reverse ++ stack, alt, n⟩).result := by
  induction pushes generalizing stack with
  | nil => rfl
  | cons data pushes ih =>
    rw [List.length_cons] at fits
    have behind : 3 < (pushes.map Command.push ++ rest).length := by
      rw [List.length_append]
      omega
    have room :
        ¬settings.maxStackSize < items ⟨pushes.map .push ++ rest, data :: stack, alt, n⟩ := by
      simp only [items, List.length_cons]
      omega
    have plain := Script.scriptHash?_of_long behind
    have fewer : pushes.length + (data :: stack).length + alt.length ≤ settings.maxStackSize := by
      rw [List.length_cons]
      omega
    have others := ih fewer
    rw [List.map_cons, List.cons_append, result_run_cons rfl, result_step,
      result_execute_push (Or.inr plain), ok_bind, if_neg room, ok_bind, List.reverse_cons,
      List.append_assoc]
    exact others

/-- The push in front of the template gives way to the commands of the script it holds. -/
theorem result_run_redeem {script hash : Bytes} (enabled : settings.redeemScripts = true)
    (length : hash.length = hashLength)
    (fits : stack.length + alt.length ≤ settings.maxStackSize) :
    (run settings z ⟨.push script :: payToScriptHash hash, stack, alt, n⟩).result =
      if Digest.hash160 script = hash then
        match Script.parseRaw settings.maxScriptSize script with
        | .error _ => .error (.error ⟨.redeemUnreadable, "OP_HASH160"⟩)
        | .ok commands => (run settings z ⟨commands, stack, alt, n⟩).result
      else .error (.error ⟨.redeemHashMismatch, "OP_EQUAL"⟩) := by
  have template : Script.scriptHash? (payToScriptHash hash) = some hash :=
    Script.scriptHash?_eq_some_iff.mpr ⟨rfl, length⟩
  rw [result_run_cons rfl, result_step, result_execute_redeem enabled template]
  by_cases same : Digest.hash160 script = hash
  · rw [if_pos same, if_pos same]
    cases Script.parseRaw settings.maxScriptSize script with
    | error e => rfl
    | ok commands =>
      have room : ¬settings.maxStackSize < items ⟨commands, stack, alt, n⟩ := Nat.not_lt_of_le fits
      rw [ok_bind, if_neg room, ok_bind]
  · rw [if_neg same, if_neg same]
    rfl

end State

namespace Script

/-- What becomes of the push of a script in front of the template with `hash`, and behind the given
pushes: the script has to have the hash, then it has to be readable, and then its commands decide,
which start on the data of the pushes. -/
def redemption (settings : ScriptSettings) (z : Nat) (pushes : List Bytes) (script hash : Bytes) :
    Except (Fault ScriptFailure) Bool :=
  if Digest.hash160 script = hash then
    match parseRaw settings.maxScriptSize script with
    | .error _ => .error (.error ⟨.redeemUnreadable, "OP_HASH160"⟩)
    | .ok commands =>
      (State.run settings z ⟨commands, pushes.reverse, [], 0⟩).result.map State.succeeds
  else .error (.error ⟨.redeemHashMismatch, "OP_EQUAL"⟩)

theorem result_evaluate_redemption {settings : ScriptSettings}
    (enabled : settings.redeemScripts = true) {pushes : List Bytes}
    (fits : pushes.length ≤ settings.maxStackSize) {hash : Bytes}
    (length : hash.length = hashLength) (script : Bytes) (z : Nat) :
    (evaluate settings z (pushes.map .push ++ [.push script] ++ payToScriptHash hash)).result =
      redemption settings z pushes script hash := by
  have long : 3 < (Command.push script :: payToScriptHash hash).length := Nat.lt_succ_self 3
  have ran : (State.run settings z
      ⟨pushes.map .push ++ (.push script :: payToScriptHash hash), [], [], 0⟩).result = _ := State.result_run_pushes long fits
  rw [List.append_nil, State.result_run_redeem enabled length
    (by rw [List.length_reverse]; exact fits)] at ran
  rw [evaluate, Traced.result_bind, State.ofScript, List.append_assoc]
  change ((State.run settings z ⟨pushes.map .push ++ (.push script :: payToScriptHash hash), [], [],
    0⟩).result >>= _) = _
  rw [ran, redemption]
  split
  · split
    · rfl
    · rename_i commands _
      cases (State.run settings z ⟨commands, pushes.reverse, [], 0⟩).result <;> rfl
  · rfl

theorem spendScriptHash_of_serializeRaw {redeem : Script} {raw : Bytes}
    (written : redeem.serializeRaw = .ok raw) (pushes : List Bytes) :
    spendScriptHash pushes redeem = .ok (pushes.map .push ++ [.push raw]) := by
  rw [spendScriptHash, written]
  rfl

/-- A script that was written is read again, up to its empty pushes. -/
theorem redemption_of_serializeRaw {settings : ScriptSettings} {redeem : Script} {raw : Bytes}
    (legible : ∀ c ∈ redeem, c.Legible) (written : redeem.serializeRaw = .ok raw)
    (small : raw.length ≤ settings.maxScriptSize) (z : Nat) (pushes : List Bytes) :
    redemption settings z pushes raw (Digest.hash160 raw) =
      (State.run settings z ⟨redeem.normal, pushes.reverse, [], 0⟩).result.map State.succeeds := by
  rw [redemption, if_pos rfl, parseRaw_of_serializeRaw legible written small]

/-- Pushes in front of the template of a payment to a script hash lead to the redemption of the last
one, on the data of the others. So does the unlocking script that is made for a script to redeem. -/
theorem evaluate_pushes_redeemed {settings : ScriptSettings}
    (enabled : settings.redeemScripts = true) {pushes : List Bytes}
    (fits : pushes.length ≤ settings.maxStackSize) {hash : Bytes}
    (length : hash.length = hashLength) (z : Nat) :
    (∀ script, (evaluate settings z
          (pushes.map .push ++ [.push script] ++ payToScriptHash hash)).result =
        redemption settings z pushes script hash) ∧
      ∀ redeem raw, redeem.serializeRaw = .ok raw →
        ∃ unlocking, spendScriptHash pushes redeem = .ok unlocking ∧
          (evaluate settings z (unlocking ++ payToScriptHash hash)).result =
            redemption settings z pushes raw hash ∧
          ((∀ c ∈ redeem, c.Legible) → raw.length ≤ settings.maxScriptSize →
            Digest.hash160 raw = hash →
            (evaluate settings z (unlocking ++ payToScriptHash hash)).result =
              (State.run settings z ⟨redeem.normal, pushes.reverse, [], 0⟩).result.map
                State.succeeds) := by
  have redeemed (script : Bytes) := result_evaluate_redemption enabled fits length script z
  refine ⟨redeemed, ?_⟩
  intro redeem raw written
  refine ⟨_, spendScriptHash_of_serializeRaw written pushes, redeemed raw, ?_⟩
  rintro legible small rfl
  rw [redeemed raw]
  exact redemption_of_serializeRaw legible written small z pushes

/-- A script that compares the item below it with the number two is redeemed on that number, and
bytes that announce a longer push than they hold are not. -/
theorem evaluate_pushes_redeemed_two :
    (∃ unlocking, spendScriptHash [[0x02]] [.op 0x52, .op 0x87] = .ok unlocking ∧
      (evaluate {} 0 (unlocking ++ payToScriptHash (Digest.hash160 [0x52, 0x87]))).result =
        .ok true) ∧
      (evaluate {} 0 ([[0x02]].map .push ++ [.push [0x05, 0x01]] ++
        payToScriptHash (Digest.hash160 [0x05, 0x01]))).result =
        .error (.error ⟨.redeemUnreadable, "OP_HASH160"⟩) := by
  have enabled : ({} : ScriptSettings).redeemScripts = true := rfl
  have fits : ([[0x02]] : List Bytes).length ≤ ({} : ScriptSettings).maxStackSize := by decide
  constructor
  · obtain ⟨-, made⟩ := evaluate_pushes_redeemed enabled fits (Digest.length_hash160 [0x52, 0x87]) 0
    obtain ⟨unlocking, spends, -, ran⟩ := made [.op 0x52, .op 0x87] [0x52, 0x87] (by decide)
    have canonical : Canonical [.op 0x52, .op 0x87] := by decide
    refine ⟨unlocking, spends, ?_⟩
    rw [ran (fun c member => (canonical c member).legible) (by decide) rfl, canonical.normal_eq]
    decide +kernel
  · obtain ⟨redeemed, -⟩ :=
      evaluate_pushes_redeemed enabled fits (Digest.length_hash160 [0x05, 0x01]) 0
    have unreadable : parseRaw 10000 [0x05, 0x01] = .error (.truncatedPush 5 1) := by
      decide +kernel
    rw [redeemed, redemption, if_pos rfl]
    change (match parseRaw 10000 [0x05, 0x01] with | .error _ => _ | .ok _ => _) = _
    rw [unreadable]

end Script

end CoinScript
