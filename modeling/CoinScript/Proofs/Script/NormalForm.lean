import CoinScript.Proofs.Script.Faults
import CoinScript.Proofs.Script.Locking
import CoinScript.Proofs.Script.RoundTrip

/-!
# Runs of scripts that were written and read again

A script that is written and read again has the opcode `00` in place of its
empty pushes. Both put the same item on the stack and neither is counted, so
the two scripts run alike, step by step, until a script is redeemed, and from
then on they are in the same state. Only a push is redeemed, though: an empty
push in front of exactly the template of a payment to a script hash runs the
empty script, while the opcode `00` leaves the template to be executed as it
stands. Both verdicts are given for that case.
-/

namespace CoinScript

open Script (payToScriptHash hashLength)

namespace Command

theorem bracket?_normal (c : Command) : c.normal.bracket? = c.bracket? := by
  rcases c with code | _ | ⟨b, data⟩
  · rfl
  · decide
  · rfl

theorem normal_eq_op_iff {c : Command} {code : UInt8} (nonzero : code ≠ 0x00) :
    c.normal = .op code ↔ c = .op code := by
  rcases c with other | _ | ⟨b, data⟩
  · rfl
  · refine iff_of_false (fun same => ?_) nofun
    cases same
    exact nonzero rfl
  · rfl

theorem normal_eq_push_iff {c : Command} {data : Bytes} (nonempty : data ≠ []) :
    c.normal = .push data ↔ c = .push data := by
  rcases c with other | _ | ⟨b, rest⟩
  · rfl
  · refine iff_of_false nofun fun same => ?_
    cases same
    exact nonempty rfl
  · rfl

end Command

/-! ## Blocks and templates -/

namespace Branches

def normal (b : Branches) : Branches := ⟨b.first.normal, b.second.normal, b.rest.normal⟩

theorem normal_cons (inFirst : Bool) (c : Command) (b : Branches) :
    (cons inFirst c b).normal = cons inFirst c.normal b.normal := by
  cases inFirst <;> rfl

theorem normal_choose (b : Branches) (condition : Bool) :
    b.normal.choose condition = (b.choose condition).normal := by
  cases condition <;> exact (List.map_append).symm

theorem split?_normal (depth : Nat) (inFirst : Bool) (commands : Script) :
    split? depth inFirst commands.normal = (split? depth inFirst commands).map normal := by
  induction commands generalizing depth inFirst with
  | nil => rw [split?_nil, Script.normal, List.map_nil, split?_nil, Option.map_none]
  | cons c rest ih =>
    have copied (next : Nat) : (split? next inFirst (Script.normal rest)).map (cons inFirst c.normal) =
        ((split? next inFirst rest).map (cons inFirst c)).map normal := by
      rw [ih, Option.map_map, Option.map_map]
      congr 1
      funext b
      exact (normal_cons inFirst c b).symm
    have same := c.bracket?_normal
    change split? depth inFirst (c.normal :: Script.normal rest) = _
    rcases bracket : c.bracket? with _ | _ | _ | _ <;> rw [bracket] at same
    · rw [split?_cons_plain bracket, split?_cons_plain same, copied]
    · rw [split?_cons_opening bracket, split?_cons_opening same, copied]
    · cases depth with
      | zero =>
        rw [split?_zero_cons_alternative bracket, split?_zero_cons_alternative same, ih]
      | succ depth =>
        rw [split?_succ_cons_alternative bracket, split?_succ_cons_alternative same, copied]
    · cases depth with
      | zero =>
        rw [split?_zero_cons_closing bracket, split?_zero_cons_closing same]
        rfl
      | succ depth =>
        rw [split?_succ_cons_closing bracket, split?_succ_cons_closing same, copied]

end Branches

theorem Script.normal_eq_payToScriptHash_iff {s : Script} {hash : Bytes}
    (length : hash.length = hashLength) :
    s.normal = payToScriptHash hash ↔ s = payToScriptHash hash := by
  have nonempty : hash ≠ [] := by
    rintro rfl
    cases length
  rcases s with _ | ⟨a, _ | ⟨b, _ | ⟨c, _ | ⟨d, rest⟩⟩⟩⟩ <;>
    simp [Script.normal, payToScriptHash, Command.normal_eq_push_iff nonempty,
      Command.normal_eq_op_iff (by decide : Opcode.opHash160 ≠ 0x00),
      Command.normal_eq_op_iff (by decide : Opcode.opEqual ≠ 0x00)]

theorem Script.scriptHash?_normal (s : Script) : scriptHash? s.normal = scriptHash? s := by
  ext hash
  rw [scriptHash?_eq_some_iff, scriptHash?_eq_some_iff]
  exact and_congr_left fun length => normal_eq_payToScriptHash_iff length

namespace State

variable {settings : ScriptSettings} {z : Nat} {s t u : State} {hash : Bytes}

/-- The state with the commands pending that are read back. -/
def normal (s : State) : State := { s with pending := s.pending.normal }

/-! ## One step -/

theorem chooseBranch_normal (negated : Bool) (s : State) :
    chooseBranch negated s.normal = (chooseBranch negated s).map normal := by
  obtain ⟨pending, stack, alt, n⟩ := s
  cases stack with
  | nil => rfl
  | cons condition stack =>
    simp only [chooseBranch, normal, Branches.ofBlock?, Branches.split?_normal]
    cases Branches.split? 0 true pending with
    | none => rfl
    | some b =>
      simp only [Option.map_some, Branches.normal_choose]
      rfl

/-- Opcodes do not tell the two scripts apart. -/
theorem result_step_op_normal_iff {code : UInt8} :
    (s.normal.step settings z (.op code)).result = .ok u ↔
      ∃ t, (s.step settings z (.op code)).result = .ok t ∧ t.normal = u := by
  have same : (s.normal.step settings z (.op code)).result =
      (s.step settings z (.op code)).result.map normal :=
    result_step_op_map (f := Script.normal) chooseBranch_normal code s
  rw [same]
  exact map_eq_ok_iff

/-- The opcode `00` does what an empty push does that is not redeemed. -/
theorem result_step_opZero_iff : (s.step settings z (.op 0x00)).result = .ok u ↔
    u = { s with stack := [] :: s.stack } ∧ u.items ≤ settings.maxStackSize := by
  have applied : (Instruction.apply z { s with executed := counted 0x00 s.executed }
      (.stack (.number 0))).result = .ok { s with stack := Number.encode 0 :: s.stack } := rfl
  have zero : Number.encode 0 = [] := by decide +kernel
  rw [result_step_op_iff]
  constructor
  · rintro ⟨-, ⟨i, known, effect⟩, fits⟩
    cases known
    rw [applied, zero] at effect
    exact ⟨(Except.ok.inj effect).symm, fits⟩
  · rintro ⟨rfl, fits⟩
    refine ⟨fun counts => absurd counts (by decide), ⟨.stack (.number 0), rfl, ?_⟩, fits⟩
    rw [applied, zero]

/-- Without a redemption, a command and the one that is read back leave corresponding states. -/
theorem result_step_normal_iff {c : Command} (unredeemed : ¬Redeems settings c s.pending) :
    (s.normal.step settings z c.normal).result = .ok u ↔
      ∃ t, (s.step settings z c).result = .ok t ∧ t.normal = u := by
  cases c with
  | op code => exact result_step_op_normal_iff
  | push data =>
    have plain := plain_of_not_redeems unredeemed
    have plain' : settings.redeemScripts = false ∨ Script.scriptHash? s.normal.pending = none := by
      change _ ∨ Script.scriptHash? s.pending.normal = none
      rwa [Script.scriptHash?_normal]
    have pushed : (s.normal.step settings z (Command.push data).normal).result = .ok u ↔
        u = { s.normal with stack := data :: s.stack } ∧ u.items ≤ settings.maxStackSize := by
      cases data with
      | nil => exact result_step_opZero_iff
      | cons b data => exact result_step_push_iff plain'
    rw [pushed]
    constructor
    · rintro ⟨rfl, fits⟩
      exact ⟨_, (result_step_push_iff plain).mpr ⟨rfl, fits⟩, rfl⟩
    · rintro ⟨t, stepped, rfl⟩
      obtain ⟨rfl, fits⟩ := (result_step_push_iff plain).mp stepped
      exact ⟨rfl, fits⟩

/-- A redeemed script that is not empty takes the place of whatever is pending. -/
theorem result_step_redeemed_normal {c : Command} (redeemed : Redeems settings c s.pending)
    (nonempty : c ≠ .push []) : (s.normal.step settings z c.normal).result = .ok u ↔
      (s.step settings z c).result = .ok u := by
  obtain ⟨enabled, ⟨data, rfl⟩, hash, template⟩ := redeemed
  have template' : Script.scriptHash? s.normal.pending = some hash := by
    change Script.scriptHash? s.pending.normal = some hash
    rwa [Script.scriptHash?_normal]
  have same : (Command.push data).normal = .push data := by
    refine (Command.normal_eq_push_iff ?_).mpr rfl
    rintro rfl
    exact nonempty rfl
  rw [same, result_step_redeem_iff enabled template', result_step_redeem_iff enabled template]
  rfl

/-! ## Runs -/

/-- A command is executed that does not redeem a script. -/
def Proceeds (settings : ScriptSettings) (z : Nat) (s t : State) : Prop :=
  ∃ c rest, s.pending = c :: rest ∧ ¬Redeems settings c rest ∧
    (step settings z { s with pending := rest } c).result = .ok t

/-- The run comes from `start` to `t` without a redemption, and what it redeems there is the empty
script, for a template with the given hash. -/
structure RedeemsEmpty (settings : ScriptSettings) (z : Nat) (start t : State) (hash : Bytes) :
    Prop where
  enabled : settings.redeemScripts = true
  before : Relation.ReflTransGen (Proceeds settings z) start t
  pending : t.pending = .push [] :: payToScriptHash hash
  length : hash.length = hashLength

section Run

variable {c : Command} {rest : Script}

theorem pending_normal (pending : s.pending = c :: rest) :
    s.normal.pending = c.normal :: rest.normal :=
  congrArg Script.normal pending

/-- Such a command leads to the same end in both scripts. -/
theorem result_run_of_proceeds (move : Proceeds settings z s t) :
    (s.run settings z).result = (t.run settings z).result ∧
      (s.normal.run settings z).result = (t.normal.run settings z).result := by
  obtain ⟨c, rest, pending, unredeemed, stepped⟩ := move
  have stepped' : (step settings z (s.resume rest).normal c.normal).result = .ok t.normal :=
    (result_step_normal_iff (s := s.resume rest) unredeemed).mpr ⟨t, stepped, rfl⟩
  constructor
  · rw [result_run_cons pending, stepped, ok_bind]
  · rw [result_run_cons (pending_normal pending)]
    change (step settings z (s.resume rest).normal c.normal).result >>= _ = _
    rw [stepped', ok_bind]

/-- From a redeemed script that is not empty on, both scripts are in the same state. -/
theorem result_run_redeemed_normal (pending : s.pending = c :: rest)
    (redeemed : Redeems settings c rest) (nonempty : c ≠ .push []) :
    (s.normal.run settings z).result = .ok u ↔ (s.run settings z).result = .ok u := by
  rw [result_run_cons pending, result_run_cons (pending_normal pending), bind_eq_ok_iff,
    bind_eq_ok_iff]
  refine exists_congr fun v => and_congr_left fun _ => ?_
  exact result_step_redeemed_normal (s := s.resume rest) redeemed nonempty

/-- A command that fails without a redemption ends both runs. -/
theorem result_run_failed_normal {e : Fault ScriptFailure} (pending : s.pending = c :: rest)
    (unredeemed : ¬Redeems settings c rest)
    (failed : (step settings z (s.resume rest) c).result = .error e) :
    (s.normal.run settings z).result = .ok u ↔ (s.run settings z).result = .ok u := by
  rw [result_run_cons pending, result_run_cons (pending_normal pending), bind_eq_ok_iff,
    bind_eq_ok_iff]
  refine iff_of_false ?_ ?_
  · rintro ⟨v, stepped, -⟩
    obtain ⟨t, succeeded, -⟩ :=
      (result_step_normal_iff (s := s.resume rest) unredeemed).mp stepped
    cases failed.symm.trans succeeded
  · rintro ⟨t, succeeded, -⟩
    cases failed.symm.trans succeeded

/-- What is redeemed here is not the empty script, if the run never redeems that before another. -/
theorem redeemed_ne_empty (unredeemed : ∀ t hash, ¬RedeemsEmpty settings z s t hash)
    (pending : s.pending = c :: rest) (redeemed : Redeems settings c rest) : c ≠ .push [] := by
  rintro rfl
  obtain ⟨enabled, -, hash, template⟩ := redeemed
  obtain ⟨rfl, length⟩ := Script.scriptHash?_eq_some_iff.mp template
  exact unredeemed s hash ⟨enabled, .refl, pending, length⟩

end Run

/-- Both scripts come to the same end, unless the empty script is redeemed before any other. -/
theorem result_run_normal_iff (unredeemed : ∀ t hash, ¬RedeemsEmpty settings z s t hash) :
    (s.normal.run settings z).result = .ok u ↔ (s.run settings z).result = .ok u := by
  induction s using induction_on_run settings z with
  | done s pending =>
    have same : s.normal = s := by
      obtain ⟨_, stack, alt, n⟩ := s
      cases pending
      rfl
    rw [same]
  | fails s c rest e pending failed =>
    by_cases redeemed : Redeems settings c rest
    · exact result_run_redeemed_normal pending redeemed
        (redeemed_ne_empty unredeemed pending redeemed)
    · exact result_run_failed_normal pending redeemed failed
  | moves s c rest t pending stepped ih =>
    by_cases redeemed : Redeems settings c rest
    · exact result_run_redeemed_normal pending redeemed
        (redeemed_ne_empty unredeemed pending redeemed)
    · have move : Proceeds settings z s t := ⟨c, rest, pending, redeemed, stepped⟩
      obtain ⟨same, same'⟩ := result_run_of_proceeds move
      rw [same, same']
      refine ih fun v hash shown => unredeemed v hash ?_
      exact ⟨shown.enabled, .head move shown.before, shown.pending, shown.length⟩

/-! ## The empty script redeemed -/

theorem items_le_of_before {script : Script}
    (before : Relation.ReflTransGen (Proceeds settings z) (ofScript script) t) :
    t.items ≤ settings.maxStackSize := by
  cases before with
  | refl => exact Nat.zero_le _
  | tail _ move =>
    obtain ⟨c, rest, -, -, stepped⟩ := move
    exact (result_step_iff.mp stepped).2

theorem result_run_of_before (before : Relation.ReflTransGen (Proceeds settings z) s t) :
    (s.run settings z).result = (t.run settings z).result ∧
      (s.normal.run settings z).result = (t.normal.run settings z).result := by
  induction before with
  | refl => exact ⟨rfl, rfl⟩
  | tail _ move ih =>
    obtain ⟨same, same'⟩ := result_run_of_proceeds move
    exact ⟨ih.1.trans same, ih.2.trans same'⟩

/-- An empty push that is redeemed leaves nothing to execute and the stacks as they were. -/
theorem result_run_empty_iff (enabled : settings.redeemScripts = true)
    (length : hash.length = hashLength) (pending : t.pending = .push [] :: payToScriptHash hash)
    (fits : t.items ≤ settings.maxStackSize) : (t.run settings z).result = .ok u ↔
      Digest.hash160 [] = hash ∧ u = t.resume [] := by
  have template : Script.scriptHash? (payToScriptHash hash) = some hash :=
    Script.scriptHash?_eq_some_iff.mpr ⟨rfl, length⟩
  have redeemed {v : State} :
      (step settings z (t.resume (payToScriptHash hash)) (.push [])).result = .ok v ↔ _ :=
    result_step_redeem_iff enabled template
  rw [result_run_cons pending, bind_eq_ok_iff]
  constructor
  · rintro ⟨v, stepped, ran⟩
    obtain ⟨⟨same, commands, parsed, rfl⟩, -⟩ := redeemed.mp stepped
    cases Script.parseRaw_nil_iff.mp parsed
    rw [result_run_nil rfl] at ran
    exact ⟨same, (Except.ok.inj ran).symm⟩
  · rintro ⟨same, rfl⟩
    have parsed : Script.parseRaw settings.maxScriptSize [] = .ok [] := Script.parseRaw_nil_iff.mpr rfl
    exact ⟨t.resume [], redeemed.mpr ⟨⟨same, [], parsed, rfl⟩, fits⟩, result_run_nil rfl⟩

/-- The opcode `00` in its place leaves the template to compare the hash of the empty script. -/
theorem result_run_empty_normal_iff (length : hash.length = hashLength)
    (pending : t.pending = .push [] :: payToScriptHash hash) :
    (t.normal.run settings z).result = .ok u ↔
      t.executed + 2 ≤ settings.maxOps ∧ t.items + 2 ≤ settings.maxStackSize ∧
        u = ⟨[], Number.ofBool (hash == Digest.hash160 []) :: t.stack, t.alt, t.executed + 2⟩ := by
  obtain ⟨_, stack, alt, n⟩ := t
  cases pending
  have zero : Number.encode 0 = [] := by decide +kernel
  have template : (payToScriptHash hash).normal = payToScriptHash hash :=
    (Script.normal_eq_payToScriptHash_iff length).mpr rfl
  change (run settings z ⟨.op 0x00 :: (payToScriptHash hash).normal, stack, alt, n⟩).result = _ ↔
    n + 2 ≤ settings.maxOps ∧ stack.length + alt.length + 2 ≤ settings.maxStackSize ∧ _
  rw [template]
  constructor
  · intro ran
    obtain ⟨-, _, constant, -, ran⟩ := (result_run_stack_iff (i := .number 0) rfl).mp ran
    cases constant
    rw [zero] at ran
    exact result_run_payToScriptHash_iff.mp ran
  · rintro ⟨room, fits, rfl⟩
    have constant : StackInstruction.run (.number 0) stack = .ok ([] :: stack) :=
      congrArg (fun item => Except.ok (item :: stack)) zero
    have one : ([] :: stack).length + alt.length ≤ settings.maxStackSize := by
      rw [List.length_cons]
      omega
    refine (result_run_stack_iff rfl).mpr
      ⟨fun counts => absurd counts (by decide), _, constant, one, ?_⟩
    exact result_run_payToScriptHash_iff.mpr ⟨room, fits, rfl⟩

end State

open State

namespace Script

/-! ## Verdicts -/

/-- Two evaluations give the same verdict, or both of them fail. -/
inductive SameVerdict : Except (Fault ScriptFailure) Bool → Except (Fault ScriptFailure) Bool → Prop
  | ok (b : Bool) : SameVerdict (.ok b) (.ok b)
  | error (e e' : ScriptFailure) : SameVerdict (.error (.error e)) (.error (.error e'))

variable {settings : ScriptSettings} {z limit : Nat} {data raw : Bytes} {s s' : Script}

theorem sameVerdict_of_iff (same : ∀ b, (evaluate settings z s).result = .ok b ↔
    (evaluate settings z s').result = .ok b) :
    SameVerdict (evaluate settings z s).result (evaluate settings z s').result := by
  rcases result_evaluate_cases settings z s with ⟨b, given⟩ | ⟨e, failed⟩
  · rw [given, (same b).mp given]
    exact .ok b
  · rcases result_evaluate_cases settings z s' with ⟨b, given⟩ | ⟨e', failed'⟩
    · cases failed.symm.trans ((same b).mpr given)
    · rw [failed, failed']
      exact .error e e'

/-- What does not succeed fails. -/
theorem result_evaluate_eq_ite {c : Prop} [Decidable c] {b : Bool}
    (success : ∀ b', (evaluate settings z s).result = .ok b' ↔ c ∧ b = b') :
    ∃ e, (evaluate settings z s).result = if c then .ok b else .error (.error e) := by
  rcases result_evaluate_cases settings z s with ⟨b', given⟩ | ⟨e, failed⟩
  · obtain ⟨holds, rfl⟩ := (success b').mp given
    exact ⟨⟨.opCount, ""⟩, by rw [if_pos holds, given]⟩
  · refine ⟨e, ?_⟩
    rw [if_neg, failed]
    intro holds
    cases failed.symm.trans ((success b).mpr ⟨holds, rfl⟩)

/-- A script that was read, written and read again gives the same verdict as before, unless the empty
script is redeemed before any other. Then the first script gives the verdict of the stacks as they
are, if the empty script has the hash of the template, and fails otherwise. The second one says
whether the empty script has that hash, if there is room for two more opcodes and two more items,
and fails otherwise. -/
theorem evaluate_reparsed (read : parseRaw limit data = .ok s) (written : serializeRaw s = .ok raw) :
    parseRaw limit raw = .ok s.normal ∧ ∀ settings z,
      ((∀ t hash, ¬RedeemsEmpty settings z (ofScript s) t hash) →
        SameVerdict (evaluate settings z s.normal).result (evaluate settings z s).result) ∧
      ∀ t hash, RedeemsEmpty settings z (ofScript s) t hash →
        (∃ e, (evaluate settings z s).result =
          if Digest.hash160 [] = hash then .ok t.succeeds else .error (.error e)) ∧
        ∃ e, (evaluate settings z s.normal).result =
          if t.executed + 2 ≤ settings.maxOps ∧ t.items + 2 ≤ settings.maxStackSize then
            .ok (hash == Digest.hash160 [])
          else .error (.error e) := by
  obtain ⟨fits, spelled⟩ := parseRaw_eq_ok_iff.mp read
  have shorter := length_le_of_form spelled written
  refine ⟨parseRaw_of_serializeRaw spelled.legible written (Nat.le_trans shorter fits), ?_⟩
  intro settings z
  constructor
  · intro unredeemed
    refine sameVerdict_of_iff fun b => ?_
    rw [result_evaluate_iff, result_evaluate_iff]
    refine exists_congr fun u => and_congr_left fun _ => ?_
    exact result_run_normal_iff unredeemed
  · intro t hash shown
    obtain ⟨same, same'⟩ := result_run_of_before shown.before
    have fits := items_le_of_before shown.before
    constructor
    · refine result_evaluate_eq_ite fun b => ?_
      rw [result_evaluate_iff, same]
      simp only [result_run_empty_iff shown.enabled shown.length shown.pending fits]
      constructor
      · rintro ⟨u, ⟨equal, rfl⟩, verdict⟩
        exact ⟨equal, verdict⟩
      · rintro ⟨equal, verdict⟩
        exact ⟨t.resume [], ⟨equal, rfl⟩, verdict⟩
    · refine result_evaluate_eq_ite fun b => ?_
      rw [result_evaluate_iff]
      change (∃ u, ((ofScript s).normal.run settings z).result = .ok u ∧ _) ↔ _
      rw [same']
      simp only [result_run_empty_normal_iff shown.length shown.pending]
      constructor
      · rintro ⟨u, ⟨room, items, rfl⟩, verdict⟩
        rw [succeeds_ofBool] at verdict
        exact ⟨⟨room, items⟩, verdict⟩
      · rintro ⟨⟨room, items⟩, verdict⟩
        exact ⟨_, ⟨room, items, rfl⟩, (succeeds_ofBool _ _ _ _ _).trans verdict⟩

/-- With redemption switched off, an empty push runs like the opcode `00`. Switched on, it is refused
in front of a template with another hash, which the opcode `00` only leaves unsatisfied. -/
theorem evaluate_reparsed_refused :
    parseRaw 25 ([0x4c, 0x00, 0xa9, 0x14] ++ List.replicate 20 0x00 ++ [0x87]) =
        .ok (.push [] :: payToScriptHash (List.replicate 20 0x00)) ∧
      serializeRaw (.push [] :: payToScriptHash (List.replicate 20 0x00)) =
        .ok ([0x00, 0xa9, 0x14] ++ List.replicate 20 0x00 ++ [0x87]) ∧
      parseRaw 25 ([0x00, 0xa9, 0x14] ++ List.replicate 20 0x00 ++ [0x87]) =
        .ok (.op 0x00 :: payToScriptHash (List.replicate 20 0x00)) ∧
      SameVerdict (evaluate { redeemScripts := false } 0
          (.op 0x00 :: payToScriptHash (List.replicate 20 0x00))).result
        (evaluate { redeemScripts := false } 0
          (.push [] :: payToScriptHash (List.replicate 20 0x00))).result ∧
      (∃ e, (evaluate {} 0 (.push [] :: payToScriptHash (List.replicate 20 0x00))).result =
        .error (.error e)) ∧
      (evaluate {} 0 (.op 0x00 :: payToScriptHash (List.replicate 20 0x00))).result = .ok false := by
  have unequal : Digest.hash160 [] ≠ List.replicate 20 0x00 := by decide +kernel
  have read : parseRaw 25 ([0x4c, 0x00, 0xa9, 0x14] ++ List.replicate 20 0x00 ++ [0x87]) =
      .ok (.push [] :: payToScriptHash (List.replicate 20 0x00)) := by decide +kernel
  have written : serializeRaw (.push [] :: payToScriptHash (List.replicate 20 0x00)) =
      .ok ([0x00, 0xa9, 0x14] ++ List.replicate 20 0x00 ++ [0x87]) := by decide +kernel
  obtain ⟨again, verdicts⟩ := evaluate_reparsed read written
  have shown : RedeemsEmpty {} 0 (ofScript (.push [] :: payToScriptHash (List.replicate 20 0x00)))
      (ofScript (.push [] :: payToScriptHash (List.replicate 20 0x00))) (List.replicate 20 0x00) :=
    ⟨rfl, .refl, rfl, rfl⟩
  obtain ⟨⟨e, first⟩, _, second⟩ := (verdicts {} 0).2 _ _ shown
  rw [if_neg unequal] at first
  rw [if_pos (by decide), beq_false_of_ne unequal.symm] at second
  refine ⟨read, written, again, ?_, ⟨e, first⟩, second⟩
  exact (verdicts { redeemScripts := false } 0).1 fun t hash shown => nomatch shown.enabled

/-- The hash of the empty script. -/
def emptyHash : Bytes :=
  [0xb4, 0x72, 0xa2, 0x66, 0xd0, 0xbd, 0x89, 0xc1, 0x37, 0x06, 0xa4, 0x13, 0x2c, 0xcf, 0xb1, 0x6f,
    0x7c, 0x3b, 0x9f, 0xcb]

/-- Written and read again, a script can succeed that did not. -/
theorem evaluate_reparsed_differs :
    parseRaw 10000 ([0x4c, 0x00, 0xa9, 0x14] ++ emptyHash ++ [0x87]) =
        .ok [.push [], .op 0xa9, .push emptyHash, .op 0x87] ∧
      serializeRaw [.push [], .op 0xa9, .push emptyHash, .op 0x87] =
        .ok ([0x00, 0xa9, 0x14] ++ emptyHash ++ [0x87]) ∧
      parseRaw 10000 ([0x00, 0xa9, 0x14] ++ emptyHash ++ [0x87]) =
        .ok [.op 0x00, .op 0xa9, .push emptyHash, .op 0x87] ∧
      (evaluate {} 0 [.push [], .op 0xa9, .push emptyHash, .op 0x87]).result = .ok false ∧
      (evaluate {} 0 [.op 0x00, .op 0xa9, .push emptyHash, .op 0x87]).result = .ok true := by
  refine ⟨?_, ?_, ?_, ?_, ?_⟩ <;> decide +kernel

end Script

end CoinScript
