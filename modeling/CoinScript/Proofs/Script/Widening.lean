import CoinScript.Proofs.Script.Grammar
import CoinScript.Proofs.Script.Steps

/-!
# Wider limits only accept more

A limit is tested at three places: before an opcode is counted, where a script
to redeem is read, and behind every command. Nothing else in a run depends on
the limits. Two runs of one script, the second with the wider limits, are
therefore the same run, unless the first one is stopped at one of these places.
The second one may then go on. That a script to redeem is too long is not told
apart from its being unreadable for another reason.
-/

namespace CoinScript

/-- The failures that wider limits may avoid. -/
def FailureCode.isLimit : FailureCode → Bool
  | .opCount | .stackSize | .redeemUnreadable => true
  | _ => false

theorem FailureCode.isLimit_eq_false_iff {code : FailureCode} :
    code.isLimit = false ↔ code ≠ .opCount ∧ code ≠ .stackSize ∧ code ≠ .redeemUnreadable := by
  cases code <;> decide

/-- The second result is the first one, unless the first one is a failure at a limit. -/
def AgreesUpToLimits {α : Type} (x y : Except (Fault ScriptFailure) α) : Prop :=
  y = x ∨ ∃ f, f.code.isLimit = true ∧ x = .error (.error f)

namespace AgreesUpToLimits

variable {α β : Type} {x y : Except (Fault ScriptFailure) α}

theorem refl (x : Except (Fault ScriptFailure) α) : AgreesUpToLimits x x := Or.inl rfl

theorem of_limit {f : ScriptFailure} (limit : f.code.isLimit = true) :
    AgreesUpToLimits (.error (.error f)) y :=
  Or.inr ⟨f, limit, rfl⟩

/-- Results that agree are followed by results that agree where there is a first one. -/
theorem bind {k l : α → Except (Fault ScriptFailure) β} (first : AgreesUpToLimits x y)
    (next : ∀ a, x = .ok a → AgreesUpToLimits (k a) (l a)) :
    AgreesUpToLimits (x >>= k) (y >>= l) := by
  rcases first with rfl | ⟨f, limit, rfl⟩
  · cases y with
    | error e => exact refl _
    | ok a => exact next a rfl
  · exact of_limit limit

theorem eq_ok {a : α} (agrees : AgreesUpToLimits x y) (ended : x = .ok a) : y = .ok a := by
  rcases agrees with rfl | ⟨f, -, failed⟩
  · exact ended
  · rw [failed] at ended
    cases ended

theorem eq_error {e : ScriptFailure} (agrees : AgreesUpToLimits x y)
    (ended : x = .error (.error e)) (other : e.code.isLimit = false) : y = .error (.error e) := by
  rcases agrees with rfl | ⟨f, limit, failed⟩
  · exact ended
  · rw [failed] at ended
    cases ended
    rw [limit] at other
    cases other

end AgreesUpToLimits

open AgreesUpToLimits

/-- The same redemptions with limits that are nowhere less. -/
structure ScriptSettings.Widens (settings wider : ScriptSettings) : Prop where
  redeemScripts : wider.redeemScripts = settings.redeemScripts
  maxOps : settings.maxOps ≤ wider.maxOps
  maxStackSize : settings.maxStackSize ≤ wider.maxStackSize
  maxScriptSize : settings.maxScriptSize ≤ wider.maxScriptSize

/-- What is read under a limit is read in the same way under a greater one. -/
theorem Script.parseRaw_of_le {limit greater : Nat} {data : Bytes} {s : Script}
    (le : limit ≤ greater) (parsed : parseRaw limit data = .ok s) : parseRaw greater data = .ok s := by
  obtain ⟨fits, form⟩ := parseRaw_eq_ok_iff.mp parsed
  exact parseRaw_eq_ok_iff.mpr ⟨fits.trans le, form⟩

namespace State

variable {settings wider : ScriptSettings} (widens : settings.Widens wider) (z : Nat)

include widens

/-! ## One step -/

theorem agrees_count (code : UInt8) (s : State) :
    AgreesUpToLimits (s.count settings code).result (s.count wider code).result := by
  have ops := widens.maxOps
  unfold count
  split
  · by_cases full : settings.maxOps < s.executed + 1
    · rw [if_pos full]
      exact of_limit rfl
    · rw [if_neg full, if_neg (by omega)]
      exact refl _
  · exact refl _

/-- An opcode meets the limits only where it is counted. -/
theorem agrees_executeOp (code : UInt8) (s : State) :
    AgreesUpToLimits (s.execute settings z (.op code)).result
      (s.execute wider z (.op code)).result := by
  simp only [execute, executeOp, Traced.result_bind, result_note]
  exact (agrees_count widens code s).bind fun t _ => refl _

/-- A push meets them only where its data is read as a script. -/
theorem agrees_executePush (data : Bytes) (s : State) :
    AgreesUpToLimits (s.execute settings z (.push data)).result
      (s.execute wider z (.push data)).result := by
  have switch := widens.redeemScripts
  by_cases plain : settings.redeemScripts = false ∨ Script.scriptHash? s.pending = none
  · rw [result_execute_push plain, result_execute_push (switch ▸ plain)]
    exact refl _
  · obtain ⟨enabled, template⟩ := not_or.mp plain
    rw [Bool.not_eq_false] at enabled
    obtain ⟨hash, template⟩ := Option.ne_none_iff_exists'.mp template
    rw [result_execute_redeem enabled template, result_execute_redeem (switch ▸ enabled) template]
    split
    · cases parsed : Script.parseRaw settings.maxScriptSize data with
      | error e => exact of_limit rfl
      | ok commands =>
        rw [Script.parseRaw_of_le widens.maxScriptSize parsed]
        exact refl _
    · exact refl _

theorem agrees_step (c : Command) (s : State) :
    AgreesUpToLimits (s.step settings z c).result (s.step wider z c).result := by
  have items := widens.maxStackSize
  have executed : AgreesUpToLimits (s.execute settings z c).result (s.execute wider z c).result := by
    cases c with
    | op code => exact agrees_executeOp widens z code s
    | push data => exact agrees_executePush widens z data s
  rw [result_step, result_step]
  refine executed.bind fun t _ => ?_
  by_cases large : settings.maxStackSize < t.items
  · rw [if_pos large]
    exact of_limit rfl
  · rw [if_neg large, if_neg (by omega)]
    exact refl _

/-! ## Runs -/

theorem agrees_run (s : State) :
    AgreesUpToLimits (s.run settings z).result (s.run wider z).result := by
  induction s using induction_on_run settings z with
  | done s pending =>
    rw [result_run_nil pending, result_run_nil pending]
    exact refl _
  | fails s c rest e pending failed =>
    rw [result_run_cons pending, result_run_cons pending]
    refine (agrees_step widens z c _).bind fun t stepped => ?_
    rw [failed] at stepped
    cases stepped
  | moves s c rest t pending stepped ih =>
    rw [result_run_cons pending, result_run_cons pending]
    refine (agrees_step widens z c _).bind fun u stepped' => ?_
    rw [stepped] at stepped'
    cases stepped'
    exact ih

end State

namespace Script

theorem agrees_evaluate {settings wider : ScriptSettings} (widens : settings.Widens wider) (z : Nat)
    (script : Script) :
    AgreesUpToLimits (evaluate settings z script).result (evaluate wider z script).result := by
  simp only [evaluate, Traced.result_bind]
  exact (State.agrees_run widens z _).bind fun t _ => refl _

/-- A verdict stays under wider limits, and so does every failure, with its code and its command, that
is not one of the three codes of a limit. Whether commands are recorded does not matter. -/
theorem evaluate_of_wider {settings wider : ScriptSettings}
    (switch : wider.redeemScripts = settings.redeemScripts) (ops : settings.maxOps ≤ wider.maxOps)
    (items : settings.maxStackSize ≤ wider.maxStackSize)
    (size : settings.maxScriptSize ≤ wider.maxScriptSize) (z : Nat) (script : Script) :
    (∀ verdict, (evaluate settings z script).result = .ok verdict →
      (evaluate wider z script).result = .ok verdict) ∧
    ∀ f : ScriptFailure, (evaluate settings z script).result = .error (.error f) →
      f.code ≠ .opCount → f.code ≠ .stackSize → f.code ≠ .redeemUnreadable →
      (evaluate wider z script).result = .error (.error f) := by
  have agrees := agrees_evaluate ⟨switch, ops, items, size⟩ z script
  refine ⟨fun verdict ended => agrees.eq_ok ended, fun f ended ops items size => ?_⟩
  exact agrees.eq_error ended (FailureCode.isLimit_eq_false_iff.mpr ⟨ops, items, size⟩)

section Example

/-- The push of a script of one opcode in front of the payment to its hash. -/
def spendsOpcode (code : UInt8) : Script :=
  .push [code] :: payToScriptHash (Digest.hash160 [code])

/-- Room for one opcode, one item and one byte of script. -/
def scarceSettings : ScriptSettings := { maxOps := 1, maxStackSize := 1, maxScriptSize := 1 }

/-- A redeemed constant succeeds and a redeemed `OP_RETURN` fails with the scarce limits, and so they do
with the default ones. With no byte allowed the script is refused as unreadable, with no opcode or no
item at the other two limits. -/
theorem evaluate_of_wider_redeemed :
    (evaluate scarceSettings 0 (spendsOpcode 0x51)).result = .ok true ∧
      (evaluate { verbose := true } 0 (spendsOpcode 0x51)).result = .ok true ∧
      (evaluate scarceSettings 0 (spendsOpcode 0x6a)).result =
        .error (.error ⟨.aborted, "OP_RETURN"⟩) ∧
      (evaluate { verbose := true } 0 (spendsOpcode 0x6a)).result =
        .error (.error ⟨.aborted, "OP_RETURN"⟩) ∧
      (evaluate { maxScriptSize := 0 } 0 (spendsOpcode 0x6a)).result =
        .error (.error ⟨.redeemUnreadable, "OP_HASH160"⟩) ∧
      (evaluate { maxOps := 0 } 0 (spendsOpcode 0x6a)).result =
        .error (.error ⟨.opCount, "OP_RETURN"⟩) ∧
      (evaluate { maxStackSize := 0 } 0 (spendsOpcode 0x51)).result =
        .error (.error ⟨.stackSize, "OP_1"⟩) := by
  have succeeded : (evaluate scarceSettings 0 (spendsOpcode 0x51)).result = .ok true := by
    decide +kernel
  have aborted : (evaluate scarceSettings 0 (spendsOpcode 0x6a)).result =
      .error (.error ⟨.aborted, "OP_RETURN"⟩) := by
    decide +kernel
  have wider := @evaluate_of_wider scarceSettings { verbose := true } rfl (by decide) (by decide)
    (by decide) 0
  refine ⟨succeeded, (wider _).1 true succeeded, aborted, ?_, ?_, ?_, ?_⟩
  · exact (wider _).2 _ aborted (by decide) (by decide) (by decide)
  · decide +kernel
  · decide +kernel
  · decide +kernel

end Example

end Script

end CoinScript
