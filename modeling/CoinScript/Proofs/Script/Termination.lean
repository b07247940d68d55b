import CoinScript.Proofs.Script.Steps
import Mathlib.Control.Monad.Basic

/-!
# Every run ends

The weight of the pending commands is lowered by every command that is
executed: a conditional puts back a part of its block, and a redeemed script
weighs less than the push and the template that it replaces. A run therefore
executes no more commands than its script weighs. Neither the limits nor the
depth to which redeemed scripts are nested matter.
-/

namespace CoinScript

namespace State

variable {settings : ScriptSettings} {z n : Nat} {s t u : State}

/-- One command after another is executed, `n` in all and none with a failure. -/
inductive Iterates (settings : ScriptSettings) (z : Nat) : Nat → State → State → Prop
  | refl (s : State) : Iterates settings z 0 s s
  | head {n : Nat} {s t u : State} (move : Moves settings z s t) (path : Iterates settings z n t u) :
      Iterates settings z (n + 1) s u

/-- The next pending command fails. -/
def FailsWith (settings : ScriptSettings) (z : Nat) (s : State) (e : Fault ScriptFailure) : Prop :=
  ∃ c rest, s.pending = c :: rest ∧ (step settings z (s.resume rest) c).result = .error e

theorem weight_of_moves (move : Moves settings z s t) : t.pending.weight < s.pending.weight := by
  obtain ⟨c, rest, pending, stepped⟩ := move
  rw [pending, Script.weight_cons]
  exact weight_step stepped

theorem weight_of_iterates (path : Iterates settings z n s t) :
    n + t.pending.weight ≤ s.pending.weight := by
  induction path with
  | refl => exact Nat.le_of_eq (Nat.zero_add _)
  | head move _ ih =>
    have lighter := weight_of_moves move
    omega

theorem weight_of_failsWith {e : Fault ScriptFailure} (failed : FailsWith settings z s e) :
    0 < s.pending.weight := by
  obtain ⟨c, rest, pending, -⟩ := failed
  have positive := c.weight_pos
  rw [pending, Script.weight_cons]
  omega

/-- A run comes to its end or to a command that fails. -/
theorem exists_end (settings : ScriptSettings) (z : Nat) (s : State) :
    ∃ n t, Iterates settings z n s t ∧
      (t.pending = [] ∧ (s.run settings z).result = .ok t ∨
        ∃ e, FailsWith settings z t e ∧ (s.run settings z).result = .error e) := by
  induction s using induction_on_run settings z with
  | done s pending => exact ⟨0, s, .refl s, Or.inl ⟨pending, result_run_nil pending⟩⟩
  | fails s c rest e pending failed =>
    rw [result_run_cons pending, failed]
    exact ⟨0, s, .refl s, Or.inr ⟨e, ⟨c, rest, pending, failed⟩, rfl⟩⟩
  | moves s c rest t pending stepped ih =>
    rw [result_run_cons pending, stepped]
    obtain ⟨n, u, path, ended⟩ := ih
    exact ⟨n + 1, u, .head ⟨c, rest, pending, stepped⟩ path, ended⟩

end State

open State

namespace Script

/-- Every command that is executed lowers the weight of what is pending, so no more commands are
executed than the script weighs, and the evaluation comes to its end or to a command that fails
within that number. -/
theorem evaluate_terminates (settings : ScriptSettings) (z : Nat) (script : Script) :
    (∀ s t, Moves settings z s t → t.pending.weight < s.pending.weight) ∧
      (∀ n t, Iterates settings z n (ofScript script) t → n + t.pending.weight ≤ script.weight) ∧
      ∃ n t, Iterates settings z n (ofScript script) t ∧
        (n ≤ script.weight ∧ t.pending = [] ∧
            (evaluate settings z script).result = .ok t.succeeds ∨
          n + 1 ≤ script.weight ∧ ∃ e, FailsWith settings z t e ∧
            (evaluate settings z script).result = .error e) := by
  refine ⟨fun s t move => weight_of_moves move, fun n t path => weight_of_iterates path, ?_⟩
  obtain ⟨n, t, path, ended⟩ := exists_end settings z (ofScript script)
  have bound : n + t.pending.weight ≤ script.weight := weight_of_iterates path
  refine ⟨n, t, path, ?_⟩
  rcases ended with ⟨done, ran⟩ | ⟨e, failed, ran⟩
  · refine Or.inl ⟨by omega, done, ?_⟩
    exact result_evaluate_iff.mpr ⟨t, ran, rfl⟩
  · have positive := weight_of_failsWith failed
    refine Or.inr ⟨by omega, e, failed, ?_⟩
    rw [evaluate, Traced.result_bind, ran]
    rfl

/-- A script that chooses a constant, behind its push in front of its template. -/
def redeemedConditional : Script :=
  .push [0x51, 0x63, 0x52, 0x68] :: payToScriptHash (Digest.hash160 [0x51, 0x63, 0x52, 0x68])

/-- Four commands are executed, which is no more than the script weighs. -/
theorem evaluate_terminates_redeemed :
    Iterates {} 0 4 (ofScript redeemedConditional) ⟨[], [[0x02]], [], 1⟩ ∧
      4 + weight [] ≤ redeemedConditional.weight := by
  have template : scriptHash? (payToScriptHash (Digest.hash160 [0x51, 0x63, 0x52, 0x68])) =
      some (Digest.hash160 [0x51, 0x63, 0x52, 0x68]) :=
    scriptHash?_eq_some_iff.mpr ⟨rfl, Digest.length_hash160 _⟩
  have parsed : parseRaw 10000 [0x51, 0x63, 0x52, 0x68] =
      .ok [.op 0x51, .op 0x63, .op 0x52, .op 0x68] := by decide +kernel
  have redeemed : Moves {} 0 (ofScript redeemedConditional)
      ⟨[.op 0x51, .op 0x63, .op 0x52, .op 0x68], [], [], 0⟩ :=
    ⟨_, _, rfl, (result_step_redeem_iff (by rfl) template).mpr ⟨⟨rfl, _, parsed, rfl⟩, by decide⟩⟩
  have one : Moves {} 0 ⟨[.op 0x51, .op 0x63, .op 0x52, .op 0x68], [], [], 0⟩
      ⟨[.op 0x63, .op 0x52, .op 0x68], [[0x01]], [], 0⟩ := ⟨_, _, rfl, by decide +kernel⟩
  have conditional : Moves {} 0 ⟨[.op 0x63, .op 0x52, .op 0x68], [[0x01]], [], 0⟩
      ⟨[.op 0x52], [], [], 1⟩ := ⟨_, _, rfl, by decide +kernel⟩
  have two : Moves {} 0 ⟨[.op 0x52], [], [], 1⟩ ⟨[], [[0x02]], [], 1⟩ :=
    ⟨_, _, rfl, by decide +kernel⟩
  have path := Iterates.head redeemed (.head one (.head conditional (.head two (.refl _))))
  obtain ⟨-, bound, -⟩ := evaluate_terminates {} 0 redeemedConditional
  exact ⟨path, bound 4 _ path⟩

end Script

end CoinScript
