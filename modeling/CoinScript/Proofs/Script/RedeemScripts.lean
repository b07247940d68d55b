import CoinScript.Proofs.Script.Locking
import Mathlib.Control.Monad.Basic

/-!
# Payments to a script hash

While redemption is switched on, the template of a payment to a script hash
can be satisfied in two ways. After a push, the data has to be a script with
the hash of the template, and the run goes on with the commands of that
script in place of the template. After an opcode the template is executed as
it stands: it asks for a script with its hash on top of the stack, and that
script is not run. An unlocking script that ends in a push is therefore always
followed by a redemption, and only one that ends in an opcode need not be.
-/

namespace CoinScript

open Script (payToScriptHash hashLength)

namespace State

variable {settings : ScriptSettings} {z : Nat} {s t : State} {hash : Bytes}

/-- The run comes to a push of a script in front of the template with its hash. The commands of the
script take the place of the template, and the run succeeds with them. -/
def SucceedsByRedeeming (settings : ScriptSettings) (z : Nat) (start : State) (hash : Bytes) :
    Prop :=
  ∃ (s t : State) (script : Bytes) (commands : Script),
    Reaches settings z start s ∧ s.pending = .push script :: payToScriptHash hash ∧
      Digest.hash160 script = hash ∧
      Script.parseRaw settings.maxScriptSize script = .ok commands ∧
      Moves settings z s (s.resume commands) ∧
      ((s.resume commands).run settings z).result = .ok t ∧ t.succeeds = true

/-- The run executes an opcode that leaves the template pending and a script with its hash on top of
the stack. The template is executed as it stands, and the run succeeds. -/
def SucceedsUnredeemed (settings : ScriptSettings) (z : Nat) (start : State) (hash : Bytes) : Prop :=
  ∃ (s u t : State) (code : UInt8) (rest : Script) (script : Bytes) (below : Stack),
    Reaches settings z start s ∧ s.pending = .op code :: rest ∧ Moves settings z s u ∧
      u.pending = payToScriptHash hash ∧ u.stack = script :: below ∧
      Digest.hash160 script = hash ∧ (u.run settings z).result = .ok t ∧ t.succeeds = true

theorem payToScriptHash_plain (hash : Bytes) : ∀ c ∈ payToScriptHash hash, c.bracket? = none := by
  simp only [payToScriptHash, List.forall_mem_cons, Command.bracket?_push]
  decide

/-- Executed as it stands, the template asks for data with its hash. -/
theorem hash_of_payToScriptHash (pending : s.pending = payToScriptHash hash)
    (ran : (s.run settings z).result = .ok t) (succeeds : t.succeeds = true) :
    ∃ script below, s.stack = script :: below ∧ Digest.hash160 script = hash := by
  obtain ⟨_, stack, alt, n⟩ := s
  cases pending
  cases stack with
  | nil =>
    obtain ⟨-, _, hashed, -⟩ := (result_run_stack_iff (i := .hash .hash160) rfl).mp ran
    cases hashed
  | cons script below =>
    obtain ⟨-, -, rfl⟩ := result_run_payToScriptHash_iff.mp ran
    rw [succeeds_ofBool] at succeeds
    exact ⟨script, below, rfl, (eq_of_beq succeeds).symm⟩

theorem succeedsByRedeeming_of_run {start : State} {data : Bytes}
    (enabled : settings.redeemScripts = true) (length : hash.length = hashLength)
    (before : Reaches settings z start s) (pending : s.pending = .push data :: payToScriptHash hash)
    (ran : (s.run settings z).result = .ok t) (succeeds : t.succeeds = true) :
    SucceedsByRedeeming settings z start hash := by
  rw [result_run_cons pending, bind_eq_ok_iff] at ran
  obtain ⟨u, stepped, ran⟩ := ran
  have template : Script.scriptHash? (payToScriptHash hash) = some hash :=
    Script.scriptHash?_eq_some_iff.mpr ⟨rfl, length⟩
  obtain ⟨⟨same, commands, parsed, rfl⟩, -⟩ :=
    (result_step_redeem_iff (s := s.resume (payToScriptHash hash)) enabled template).mp stepped
  exact ⟨s, t, data, commands, before, pending, same, parsed, ⟨_, _, pending, stepped⟩, ran,
    succeeds⟩

/-- Behind the template nothing else is left that a redemption could replace with it. -/
theorem eq_nil_of_redeems {c : Command} {rest : Script}
    (redeemed : Redeems settings c (rest ++ payToScriptHash hash)) : rest = [] := by
  obtain ⟨-, -, other, template⟩ := redeemed
  have same := congrArg List.length (Script.scriptHash?_eq_some_iff.mp template).1
  rw [List.length_append, payToScriptHash, payToScriptHash] at same
  exact List.eq_nil_of_length_eq_zero (Nat.add_eq_right.mp same)

/-- Commands that end in a push are followed by a redemption. -/
theorem succeedsByRedeeming_of_push {data : Bytes} {front : Script}
    (enabled : settings.redeemScripts = true) (length : hash.length = hashLength)
    (pending : s.pending = front ++ [.push data] ++ payToScriptHash hash)
    (ran : (s.run settings z).result = .ok t) (succeeds : t.succeeds = true) :
    SucceedsByRedeeming settings z s hash := by
  obtain ⟨path, done⟩ := result_run_iff.mp ran
  have plain : ∀ c ∈ Command.push data :: payToScriptHash hash, c.bracket? = none :=
    List.forall_mem_cons.mpr ⟨Command.bracket?_push, payToScriptHash_plain hash⟩
  rw [List.append_assoc] at pending
  obtain ⟨u, before, reached, after⟩ := exists_suffix plain (by decide : 3 < 4) path done pending
  exact succeedsByRedeeming_of_run enabled length before reached
    (result_run_iff.mpr ⟨after, done⟩) succeeds

/-- The command before the template either is a push, and the script is redeemed, or an opcode. -/
theorem succeedsByRedeeming_or_succeedsUnredeemed {c : Command} {rest : Script}
    (enabled : settings.redeemScripts = true) (length : hash.length = hashLength)
    (pending : s.pending = c :: (rest ++ payToScriptHash hash))
    (ran : (s.run settings z).result = .ok t) (succeeds : t.succeeds = true) :
    SucceedsByRedeeming settings z s hash ∨ SucceedsUnredeemed settings z s hash := by
  obtain ⟨path, done⟩ := result_run_iff.mp ran
  obtain ⟨v, c, rest, u, before, reached, stepped, after, last⟩ :=
    exists_last_in_front (payToScriptHash_plain hash) path done pending
  have move : Moves settings z v u := ⟨c, _, reached, stepped⟩
  have ran_after := result_run_iff.mpr ⟨after, done⟩
  have redeeming (data : Bytes) (push : c = .push data) (nothing : rest = []) :
      SucceedsByRedeeming settings z s hash := by
    subst push nothing
    exact succeedsByRedeeming_of_run enabled length before reached
      (result_run_iff.mpr ⟨.head move after, done⟩) succeeds
  -- A push stands right in front of the template either way: a redemption needs that, and without
  -- one the push leaves pending whatever is behind it.
  cases c with
  | push data =>
    left
    by_cases redeemed : Redeems settings (.push data) (rest ++ payToScriptHash hash)
    · exact redeeming data rfl (eq_nil_of_redeems redeemed)
    · have kept : u.pending = rest ++ payToScriptHash hash :=
        pending_of_step_plain (by simp [Command.bracket?_push]) redeemed stepped
      have left_over : u.pending = payToScriptHash hash := last.resolve_right redeemed
      exact redeeming data rfl (List.append_left_eq_self.mp (kept.symm.trans left_over))
  | op code =>
    right
    have left_over : u.pending = payToScriptHash hash := last.resolve_right not_redeems_op
    obtain ⟨script, below, top, same⟩ := hash_of_payToScriptHash left_over ran_after succeeds
    exact ⟨v, u, t, code, _, script, below, before, reached, move, left_over, top, same, ran_after,
      succeeds⟩

end State

open State

/-- A run of an unlocking script and the template that succeeds has redeemed a script, or the command
before the template was an opcode and the template was executed as it stands. After an unlocking
script that ends in a push it has redeemed a script. -/
theorem Script.evaluate_payToScriptHash {settings : ScriptSettings}
    (enabled : settings.redeemScripts = true) {hash : Bytes} (length : hash.length = hashLength)
    {z : Nat} {unlocking : Script}
    (success : (evaluate settings z (unlocking ++ payToScriptHash hash)).result = .ok true) :
    SucceedsByRedeeming settings z (ofScript (unlocking ++ payToScriptHash hash)) hash ∨
      SucceedsUnredeemed settings z (ofScript (unlocking ++ payToScriptHash hash)) hash ∧
        ∀ front data, unlocking ≠ front ++ [.push data] := by
  obtain ⟨t, ran, succeeds⟩ := result_evaluate_iff.mp success
  by_cases pushed : ∃ front data, unlocking = front ++ [.push data]
  · obtain ⟨front, data, rfl⟩ := pushed
    exact Or.inl (succeedsByRedeeming_of_push enabled length rfl ran succeeds)
  · cases unlocking with
    | nil =>
      obtain ⟨_, _, empty, -⟩ := hash_of_payToScriptHash rfl ran succeeds
      cases empty
    | cons c rest =>
      refine (succeedsByRedeeming_or_succeedsUnredeemed enabled length rfl ran succeeds).imp_right ?_
      exact fun unredeemed => ⟨unredeemed, fun front data same => pushed ⟨front, data, same⟩⟩

namespace Script

/-- The push of a script that leaves true is redeemed, and the script leaves true. -/
theorem evaluate_payToScriptHash_one :
    (evaluate {} 0 ([.push [0x51]] ++ payToScriptHash (Digest.hash160 [0x51]))).result = .ok true ∧
      SucceedsByRedeeming {} 0
        (ofScript ([.push [0x51]] ++ payToScriptHash (Digest.hash160 [0x51])))
        (Digest.hash160 [0x51]) := by
  have template : scriptHash? (payToScriptHash (Digest.hash160 [0x51])) =
      some (Digest.hash160 [0x51]) :=
    scriptHash?_eq_some_iff.mpr ⟨rfl, Digest.length_hash160 _⟩
  have parsed : parseRaw 10000 [0x51] = .ok [.op 0x51] := by decide +kernel
  have success : (evaluate {} 0
      ([.push [0x51]] ++ payToScriptHash (Digest.hash160 [0x51]))).result = .ok true := by
    refine result_evaluate_iff.mpr ⟨⟨[], [[0x01]], [], 0⟩, ?_, by decide⟩
    rw [result_run_cons rfl, bind_eq_ok_iff]
    refine ⟨_, (result_step_redeem_iff (by rfl) template).mpr
      ⟨⟨rfl, [.op 0x51], parsed, rfl⟩, by decide⟩, ?_⟩
    refine (result_run_stack_iff (i := .number 1) rfl).mpr
      ⟨by decide, [[0x01]], by decide +kernel, by decide, ?_⟩
    exact result_run_nil rfl
  rcases evaluate_payToScriptHash rfl (Digest.length_hash160 _) success with redeemed | ⟨-, ends⟩
  · exact ⟨success, redeemed⟩
  · exact absurd rfl (ends [] [0x51])

/-- Any script can be shown to its template without being run, with an opcode after its push. -/
theorem evaluate_shown (script : Bytes) :
    (evaluate {} 0 ([.push script, .op 0x61] ++ payToScriptHash (Digest.hash160 script))).result =
      .ok true := by
  refine result_evaluate_iff.mpr ⟨_, ?_, succeeds_ofBool true [] [] [] 3⟩
  refine (result_run_push_iff rfl).mpr ⟨by simp, ?_⟩
  refine (result_run_stack_iff (i := .skip) rfl).mpr ⟨by decide, [script], rfl, by simp, ?_⟩
  have same : (Digest.hash160 script == Digest.hash160 script) = true := beq_self_eq_true _
  exact result_run_payToScriptHash_iff.mpr ⟨by decide, by simp, by rw [same]; rfl⟩

/-- On that way there is no conditional, and no push has the template right behind it. -/
theorem straight_shown (script hash : Bytes) (c : Command) (rest : Script)
    (remaining : c :: rest <:+ [.push script, .op 0x61] ++ payToScriptHash hash) :
    c.bracket? ≠ some .opening ∧ ¬Redeems {} c rest := by
  simp only [payToScriptHash, List.cons_append, List.nil_append, List.suffix_cons_iff,
    List.suffix_nil, reduceCtorEq, or_false] at remaining
  rcases remaining with h | h | h | h | h <;> cases h
  · exact ⟨by simp [Command.bracket?_push], not_redeems_of_none rfl⟩
  · exact ⟨by decide, not_redeems_op⟩
  · exact ⟨by decide, not_redeems_op⟩
  · exact ⟨by simp [Command.bracket?_push], not_redeems_of_none rfl⟩
  · exact ⟨by decide, not_redeems_op⟩

/-- The script that leaves false fails when it is run, but satisfies its template without being run. -/
theorem evaluate_unredeemed :
    (Digest.hash160 [0x00]).length = hashLength ∧
      parseRaw 10000 [0x00] = .ok [.op 0x00] ∧ (evaluate {} 0 [.op 0x00]).result = .ok false ∧
      (evaluate {} 0
        ([.push [0x00], .op 0x61] ++ payToScriptHash (Digest.hash160 [0x00]))).result = .ok true ∧
      ¬SucceedsByRedeeming {} 0
        (ofScript ([.push [0x00], .op 0x61] ++ payToScriptHash (Digest.hash160 [0x00])))
        (Digest.hash160 [0x00]) := by
  refine ⟨Digest.length_hash160 _, by decide +kernel, by decide +kernel, evaluate_shown _, ?_⟩
  rintro ⟨s, t, script, commands, before, pending, -⟩
  have suffix := suffix_of_reaches before (straight_shown _ _)
  rw [pending] at suffix
  simp [ofScript, payToScriptHash, List.suffix_cons_iff] at suffix

end Script

end CoinScript
