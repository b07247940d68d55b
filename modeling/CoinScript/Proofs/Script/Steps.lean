import CoinScript.Proofs.Sequencing
import CoinScript.Script.Machine
import Mathlib.Logic.Relation

/-!
# Steps and runs

What one step of the machine can do is said once for each kind of command: an
opcode is counted and its instruction applied, a push adds its data or, in
front of the template of a payment to a script hash, redeems it. A run that
ends without a failure is a sequence of such steps. What is shown of a run is
shown by one induction, from its end back to its start.
-/

namespace CoinScript

/-- The instruction of an opcode is that of its entry in the table. -/
theorem Opcode.exists_entry {code : UInt8} {i : Instruction}
    (known : instructionOf? code = some i) :
    ∃ entry ∈ table, entry.code = code ∧ entry.instruction = some i := by
  obtain ⟨entry, found, instruction⟩ := Option.bind_eq_some_iff.mp known
  have matched := List.find?_some found
  exact ⟨entry, List.mem_of_find?_eq_some found, eq_of_beq matched, instruction⟩

/-- The conditional opcodes are those that open a block. -/
theorem Opcode.bracket_of_conditional {code : UInt8} {negated : Bool}
    (known : instructionOf? code = some (.conditional negated)) :
    (Command.op code).bracket? = some .opening := by
  have listed : ∀ entry ∈ table, ∀ negated, entry.instruction = some (.conditional negated) →
      (Command.op entry.code).bracket? = some .opening := by
    decide
  obtain ⟨entry, member, rfl, conditional⟩ := exists_entry known
  exact listed entry member negated conditional

theorem Number.truthy_ofBool (b : Bool) : truthy (ofBool b) = b := by
  cases b <;> decide +kernel

theorem Command.bracket?_push {data : Bytes} : (push data).bracket? = none := by
  simp [bracket?]

theorem Command.exists_conditional {c : Command} (opening : c.bracket? = some .opening) :
    ∃ code negated, c = .op code ∧ Opcode.lastConstant < code ∧
      Opcode.instructionOf? code = some (.conditional negated) := by
  unfold bracket? at opening
  split at opening
  · rename_i which
    rcases which with rfl | rfl
    · exact ⟨Opcode.opIf, false, rfl, by decide, by decide⟩
    · exact ⟨Opcode.opNotIf, true, rfl, by decide, by decide⟩
  · split at opening
    · cases opening
    · split at opening <;> cases opening

namespace State

variable {settings : ScriptSettings} {z : Nat} {s t : State}

/-! ## One step -/

/-- The number of opcodes counted once this one has been. -/
def counted (code : UInt8) (n : Nat) : Nat :=
  if Opcode.lastConstant < code then n + 1 else n

theorem result_count_iff {code : UInt8} : (s.count settings code).result = .ok t ↔
    (Opcode.lastConstant < code → s.executed + 1 ≤ settings.maxOps) ∧
      t = { s with executed := counted code s.executed } := by
  unfold count counted
  split
  · rename_i counts
    split
    · rename_i full
      exact iff_of_false nofun fun h => absurd (h.1 counts) (Nat.not_le_of_lt full)
    · rename_i room
      refine ⟨fun h => ?_, fun h => ?_⟩
      · cases h
        exact ⟨fun _ => Nat.le_of_not_lt room, rfl⟩
      · rw [h.2]
        rfl
  · rename_i constant
    refine ⟨fun h => ?_, fun h => ?_⟩
    · cases h
      exact ⟨fun counts => absurd counts constant, rfl⟩
    · rw [h.2]
      rfl

/-- A command is executed, and then the size of the stacks is checked. -/
theorem result_step (c : Command) : (s.step settings z c).result =
    (s.execute settings z c).result >>= fun t =>
      if settings.maxStackSize < t.items then .error (.error ⟨.stackSize, c.name⟩) else .ok t := by
  rw [step, Traced.result_bind]
  cases (s.execute settings z c).result with
  | error e => rfl
  | ok t =>
    rw [ok_bind, ok_bind]
    split <;> rfl

theorem result_step_iff {c : Command} : (s.step settings z c).result = .ok t ↔
    (s.execute settings z c).result = .ok t ∧ t.items ≤ settings.maxStackSize := by
  rw [result_step, bind_eq_ok_iff]
  constructor
  · rintro ⟨u, executed, checked⟩
    split at checked
    · cases checked
    · rename_i fits
      cases checked
      exact ⟨executed, Nat.le_of_not_lt fits⟩
  · rintro ⟨executed, fits⟩
    exact ⟨t, executed, if_neg (Nat.not_lt_of_le fits)⟩

theorem result_note (event : Event) : (note settings event).result = .ok () := by
  unfold note
  split <;> rfl

/-- An opcode is counted if it has to be, and its instruction is applied. -/
theorem result_execute_op_iff {code : UInt8} : (s.execute settings z (.op code)).result = .ok t ↔
    (Opcode.lastConstant < code → s.executed + 1 ≤ settings.maxOps) ∧
      ∃ i, Opcode.instructionOf? code = some i ∧
        (i.apply z { s with executed := counted code s.executed }).result = .ok t := by
  simp only [execute, executeOp, Traced.result_bind_eq_ok_iff, result_count_iff, result_note,
    Traced.result_mapError_eq_ok_iff]
  constructor
  · rintro ⟨u, ⟨room, rfl⟩, _, -, applied⟩
    cases known : Opcode.instructionOf? code with
    | none =>
      rw [known] at applied
      cases applied
    | some i =>
      rw [known] at applied
      exact ⟨room, i, rfl, applied⟩
  · rintro ⟨room, i, known, applied⟩
    refine ⟨_, ⟨room, rfl⟩, (), trivial, ?_⟩
    rw [known]
    exact applied

theorem result_step_op_iff {code : UInt8} : (s.step settings z (.op code)).result = .ok t ↔
    (Opcode.lastConstant < code → s.executed + 1 ≤ settings.maxOps) ∧
      (∃ i, Opcode.instructionOf? code = some i ∧
        (i.apply z { s with executed := counted code s.executed }).result = .ok t) ∧
      t.items ≤ settings.maxStackSize := by
  rw [result_step_iff, result_execute_op_iff, and_assoc]

/-- An opcode that is executed within some limits is executed within wider ones. -/
theorem result_step_op_of_le {wider : ScriptSettings} {code : UInt8}
    (ops : settings.maxOps ≤ wider.maxOps) (items : settings.maxStackSize ≤ wider.maxStackSize)
    (stepped : (s.step settings z (.op code)).result = .ok t) :
    (s.step wider z (.op code)).result = .ok t := by
  obtain ⟨room, applied, fits⟩ := result_step_op_iff.mp stepped
  exact result_step_op_iff.mpr
    ⟨fun counts => Nat.le_trans (room counts) ops, applied, Nat.le_trans fits items⟩

/-- A push adds its data, unless the template of a payment to a script hash follows it. -/
theorem result_execute_push {data : Bytes}
    (plain : settings.redeemScripts = false ∨ Script.scriptHash? s.pending = none) :
    (s.execute settings z (.push data)).result = .ok { s with stack := data :: s.stack } := by
  have unredeemed : ¬(settings.redeemScripts ∧ Script.isPayToScriptHash s.pending) := by
    rintro ⟨enabled, template⟩
    rcases plain with disabled | none
    · rw [disabled] at enabled
      cases enabled
    · rw [Script.isPayToScriptHash, none] at template
      cases template
  simp only [execute, executePush, Traced.result_bind, result_note]
  rw [if_neg unredeemed]
  rfl

/-- In front of the template, a push has to be of a script with the hash of the template, and its
commands become the pending ones. -/
theorem result_execute_redeem {data hash : Bytes} (enabled : settings.redeemScripts = true)
    (template : Script.scriptHash? s.pending = some hash) :
    (s.execute settings z (.push data)).result =
      if Digest.hash160 data = hash then
        match Script.parseRaw settings.maxScriptSize data with
        | .error _ => .error (.error ⟨.redeemUnreadable, "OP_HASH160"⟩)
        | .ok commands => .ok { s with pending := commands }
      else .error (.error ⟨.redeemHashMismatch, "OP_EQUAL"⟩) := by
  have redeemed : settings.redeemScripts ∧ Script.isPayToScriptHash s.pending :=
    ⟨enabled, by rw [Script.isPayToScriptHash, template]; rfl⟩
  simp only [execute, executePush, Traced.result_bind, result_note]
  rw [if_pos redeemed]
  simp only [redeem, template]
  by_cases same : Digest.hash160 data = hash
  · rw [if_pos same, if_pos same]
    cases Script.parseRaw settings.maxScriptSize data <;> rfl
  · rw [if_neg same, if_neg same]
    rfl

/-- A push that does not fail has either added its data or redeemed it. -/
theorem execute_push_cases {data : Bytes} (executed : (s.execute settings z (.push data)).result = .ok t) :
    (settings.redeemScripts = false ∨ Script.scriptHash? s.pending = none) ∧
        t = { s with stack := data :: s.stack } ∨
      ∃ hash commands, settings.redeemScripts = true ∧ Script.scriptHash? s.pending = some hash ∧
        Digest.hash160 data = hash ∧ Script.parseRaw settings.maxScriptSize data = .ok commands ∧
        t = { s with pending := commands } := by
  cases enabled : settings.redeemScripts with
  | false =>
    rw [result_execute_push (Or.inl enabled)] at executed
    exact Or.inl ⟨Or.inl rfl, (Except.ok.inj executed).symm⟩
  | true =>
    cases template : Script.scriptHash? s.pending with
    | none =>
      rw [result_execute_push (Or.inr template)] at executed
      exact Or.inl ⟨Or.inr rfl, (Except.ok.inj executed).symm⟩
    | some hash =>
      rw [result_execute_redeem enabled template] at executed
      split at executed
      · rename_i same
        split at executed
        · cases executed
        · rename_i commands parsed
          exact Or.inr ⟨hash, commands, rfl, rfl, same, parsed, (Except.ok.inj executed).symm⟩
      · cases executed

theorem result_step_push_iff {data : Bytes}
    (plain : settings.redeemScripts = false ∨ Script.scriptHash? s.pending = none) :
    (s.step settings z (.push data)).result = .ok t ↔
      t = { s with stack := data :: s.stack } ∧ t.items ≤ settings.maxStackSize := by
  rw [result_step_iff, result_execute_push plain, Except.ok.injEq, eq_comm]

theorem result_step_redeem_iff {data hash : Bytes} (enabled : settings.redeemScripts = true)
    (template : Script.scriptHash? s.pending = some hash) :
    (s.step settings z (.push data)).result = .ok t ↔
      (Digest.hash160 data = hash ∧ ∃ commands,
        Script.parseRaw settings.maxScriptSize data = .ok commands ∧
          t = { s with pending := commands }) ∧ t.items ≤ settings.maxStackSize := by
  rw [result_step_iff, result_execute_redeem enabled template]
  refine and_congr_left fun _ => ?_
  by_cases same : Digest.hash160 data = hash
  · rw [if_pos same, and_iff_right same]
    cases Script.parseRaw settings.maxScriptSize data with
    | error e => exact iff_of_false nofun fun ⟨_, h, _⟩ => nomatch h
    | ok commands =>
      refine ⟨fun h => ⟨commands, rfl, (Except.ok.inj h).symm⟩, ?_⟩
      rintro ⟨_, read, rfl⟩
      cases read
      rfl
  · rw [if_neg same]
    exact iff_of_false nofun fun h => same h.1

/-- A choice takes its condition from the stack, and the block that it cuts has an end. -/
theorem exists_of_chooseBranch {negated : Bool} (chosen : chooseBranch negated s = .ok t) :
    ∃ condition stack b, s.stack = condition :: stack ∧ Branches.ofBlock? s.pending = some b ∧
      t = { s with stack := stack, pending := b.choose (Number.truthy condition != negated) } := by
  unfold chooseBranch at chosen
  split at chosen
  · cases chosen
  · rename_i condition stack top
    split at chosen
    · cases chosen
    · rename_i b cut
      cases chosen
      exact ⟨condition, stack, b, top, cut, rfl⟩

/-- What an instruction can do to the state. -/
theorem apply_cases {i : Instruction} (applied : (i.apply z s).result = .ok t) :
    (∃ j main, i = .stack j ∧ j.run s.stack = .ok main ∧ t = { s with stack := main }) ∨
    (∃ negated, i = .conditional negated ∧ chooseBranch negated s = .ok t) ∨
    (∃ j main alt, i = .altStack j ∧ j.run s.stack s.alt = .ok (main, alt) ∧
      t = { s with stack := main, alt := alt }) ∨
    ∃ j main, i = .signature j ∧ (j.run z s.stack).result = .ok main ∧
      t = { s with stack := main } := by
  cases i with
  | stack j =>
    obtain ⟨main, ran, same⟩ := Traced.result_bind_eq_ok_iff.mp applied
    cases same
    exact Or.inl ⟨j, main, rfl, Traced.result_lift_eq_ok_iff.mp ran, rfl⟩
  | conditional negated =>
    exact Or.inr (Or.inl ⟨negated, rfl, Traced.result_lift_eq_ok_iff.mp applied⟩)
  | altStack j =>
    obtain ⟨⟨main, alt⟩, ran, same⟩ := Traced.result_bind_eq_ok_iff.mp applied
    cases same
    exact Or.inr (Or.inr (Or.inl ⟨j, main, alt, rfl, Traced.result_lift_eq_ok_iff.mp ran, rfl⟩))
  | signature j =>
    obtain ⟨main, ran, same⟩ := Traced.result_bind_eq_ok_iff.mp applied
    cases same
    exact Or.inr (Or.inr (Or.inr ⟨j, main, rfl, ran, rfl⟩))

/-- The state with other commands pending. -/
def resume (s : State) (pending : Script) : State := { s with pending := pending }

/-- An instruction that is no conditional neither reads nor changes the pending commands. -/
theorem result_apply_resume {i : Instruction} (ordinary : ∀ negated, i ≠ .conditional negated)
    (pending : Script) : (i.apply z (s.resume pending)).result =
      (i.apply z s).result.map fun t => t.resume pending := by
  have framed {α : Type} (x : Traced (Fault FailureCode) α) (f : α → State) :
      (x >>= fun a => pure ((f a).resume pending)).result =
        (x >>= fun a => pure (f a)).result.map fun t => t.resume pending := by
    rw [Traced.result_bind, Traced.result_bind]
    cases x.result <;> rfl
  cases i with
  | stack i => exact framed (liftM (i.run s.stack)) fun main => { s with stack := main }
  | conditional negated => exact absurd rfl (ordinary negated)
  | altStack i =>
    exact framed (liftM (i.run s.stack s.alt)) fun both => { s with stack := both.1, alt := both.2 }
  | signature i => exact framed (i.run z s.stack) fun main => { s with stack := main }

theorem pending_of_apply {i : Instruction} (ordinary : ∀ negated, i ≠ .conditional negated)
    (applied : (i.apply z s).result = .ok t) : t.pending = s.pending := by
  have framed := result_apply_resume (s := s) (z := z) ordinary s.pending
  rw [show s.resume s.pending = s from rfl, applied] at framed
  have same : t = t.resume s.pending := Except.ok.inj framed
  rw [same]
  rfl

section OtherCommands

variable {f : Script → Script}
  (choice : ∀ negated (s : State), chooseBranch negated (s.resume (f s.pending)) =
    (chooseBranch negated s).map fun t => t.resume (f t.pending))

include choice

/-- If the choice of a branch carries over to other pending commands, so does every instruction. -/
theorem result_apply_map (i : Instruction) (s : State) :
    (i.apply z (s.resume (f s.pending))).result =
      (i.apply z s).result.map fun t => t.resume (f t.pending) := by
  by_cases conditional : ∃ negated, i = .conditional negated
  · obtain ⟨negated, rfl⟩ := conditional
    change (chooseBranch negated (s.resume (f s.pending))).mapError _ =
      ((chooseBranch negated s).mapError _).map _
    rw [choice]
    cases chooseBranch negated s <;> rfl
  · have ordinary : ∀ negated, i ≠ .conditional negated :=
      fun negated same => conditional ⟨negated, same⟩
    rw [result_apply_resume ordinary]
    cases applied : (i.apply z s).result with
    | error e => rfl
    | ok t =>
      have kept : t.pending = s.pending := pending_of_apply ordinary applied
      change Except.ok (t.resume (f s.pending)) = .ok (t.resume (f t.pending))
      rw [kept]

/-- Then so does the step of every opcode, with the same failure if it fails. -/
theorem result_step_op_map (code : UInt8) (s : State) :
    ((s.resume (f s.pending)).step settings z (.op code)).result =
      (s.step settings z (.op code)).result.map fun t => t.resume (f t.pending) := by
  have counts : ((s.resume (f s.pending)).count settings code).result =
      (s.count settings code).result.map fun t => t.resume (f t.pending) := by
    change Traced.result (if _ then if settings.maxOps < s.executed + 1 then _ else _ else _) = _
    unfold count
    split
    · split <;> rfl
    · rfl
  simp only [step, execute, executeOp, Traced.result_bind, result_note, counts]
  cases (s.count settings code).result with
  | error e => rfl
  | ok t =>
    cases Opcode.instructionOf? code with
    | none => rfl
    | some i =>
      simp only [Except.map, Except.bind, bind, Traced.result_mapError, result_apply_map choice i t]
      cases (i.apply z t).result with
      | error e => rfl
      | ok u =>
        change Traced.result (if settings.maxStackSize < u.items then _ else _) =
          Except.map _ (Traced.result (if settings.maxStackSize < u.items then _ else _))
        split <;> rfl

end OtherCommands

/-! ## Runs -/

theorem succeeds_ofBool (b : Bool) (pending : Script) (stack alt : Stack) (n : Nat) :
    succeeds ⟨pending, Number.ofBool b :: stack, alt, n⟩ = b :=
  Number.truthy_ofBool b

theorem run_nil (empty : s.pending = []) : s.run settings z = pure s := by
  rw [run]
  split
  · rfl
  · rename_i pending
    rw [empty] at pending
    cases pending

theorem run_cons {c : Command} {rest : Script} (pending : s.pending = c :: rest) :
    s.run settings z =
      step settings z { s with pending := rest } c >>= fun t => t.run settings z := by
  rw [run]
  split
  · rename_i empty
    rw [pending] at empty
    cases empty
  · rename_i c' rest' found
    rw [pending] at found
    cases found
    dsimp only
    change _ = Traced.bind _ _
    unfold Traced.bind
    split
    · rename_i e failed
      rw [failed]
    · rename_i t stepped
      rw [stepped]

theorem result_run_nil (empty : s.pending = []) : (s.run settings z).result = .ok s := by
  rw [run_nil empty]
  rfl

theorem result_run_cons {c : Command} {rest : Script} (pending : s.pending = c :: rest) :
    (s.run settings z).result =
      (step settings z { s with pending := rest } c).result >>= fun t =>
        (t.run settings z).result := by
  rw [run_cons pending, Traced.result_bind]

section FirstCommand

variable {code : UInt8} {rest : Script} {stack alt : Stack} {n : Nat}

/-- An instruction that only replaces the main stack. -/
theorem result_run_main_iff {i : Instruction} {f : Stack → Traced (Fault FailureCode) Stack}
    (known : Opcode.instructionOf? code = some i)
    (effect : ∀ s : State, i.apply z s = f s.stack >>= fun main => pure { s with stack := main }) :
    (run settings z ⟨.op code :: rest, stack, alt, n⟩).result = .ok t ↔
      (Opcode.lastConstant < code → n + 1 ≤ settings.maxOps) ∧
        ∃ after, (f stack).result = .ok after ∧
          after.length + alt.length ≤ settings.maxStackSize ∧
          (run settings z ⟨rest, after, alt, counted code n⟩).result = .ok t := by
  rw [result_run_cons rfl, bind_eq_ok_iff]
  constructor
  · rintro ⟨u, stepped, ran⟩
    obtain ⟨room, ⟨i', found, applied⟩, fits⟩ := result_step_op_iff.mp stepped
    rw [known] at found
    cases found
    rw [effect] at applied
    obtain ⟨after, computed, made⟩ := Traced.result_bind_eq_ok_iff.mp applied
    cases made
    exact ⟨room, after, computed, fits, ran⟩
  · rintro ⟨room, after, computed, fits, ran⟩
    refine ⟨⟨rest, after, alt, counted code n⟩, result_step_op_iff.mpr ⟨room, ⟨i, known, ?_⟩, fits⟩, ran⟩
    rw [effect]
    exact Traced.result_bind_eq_ok_iff.mpr ⟨after, computed, rfl⟩

theorem result_run_stack_iff {i : StackInstruction}
    (known : Opcode.instructionOf? code = some (.stack i)) :
    (run settings z ⟨.op code :: rest, stack, alt, n⟩).result = .ok t ↔
      (Opcode.lastConstant < code → n + 1 ≤ settings.maxOps) ∧
        ∃ after, i.run stack = .ok after ∧ after.length + alt.length ≤ settings.maxStackSize ∧
          (run settings z ⟨rest, after, alt, counted code n⟩).result = .ok t := by
  rw [result_run_main_iff (f := fun main => liftM (i.run main)) known fun _ => rfl]
  simp only [Traced.result_lift_eq_ok_iff]

theorem result_run_signature_iff {i : SignatureInstruction}
    (known : Opcode.instructionOf? code = some (.signature i)) :
    (run settings z ⟨.op code :: rest, stack, alt, n⟩).result = .ok t ↔
      (Opcode.lastConstant < code → n + 1 ≤ settings.maxOps) ∧
        ∃ after, (i.run z stack).result = .ok after ∧
          after.length + alt.length ≤ settings.maxStackSize ∧
          (run settings z ⟨rest, after, alt, counted code n⟩).result = .ok t :=
  result_run_main_iff (f := i.run z) known fun _ => rfl

theorem result_run_push_iff {data : Bytes} (plain : Script.scriptHash? rest = none) :
    (run settings z ⟨.push data :: rest, stack, alt, n⟩).result = .ok t ↔
      (data :: stack).length + alt.length ≤ settings.maxStackSize ∧
        (run settings z ⟨rest, data :: stack, alt, n⟩).result = .ok t := by
  rw [result_run_cons rfl, bind_eq_ok_iff]
  constructor
  · rintro ⟨u, stepped, ran⟩
    obtain ⟨rfl, fits⟩ := (result_step_push_iff (Or.inr plain)).mp stepped
    exact ⟨fits, ran⟩
  · rintro ⟨fits, ran⟩
    exact ⟨_, (result_step_push_iff (Or.inr plain)).mpr ⟨rfl, fits⟩, ran⟩

end FirstCommand

/-- The first pending command is executed, with `t` after it. -/
def Moves (settings : ScriptSettings) (z : Nat) (s t : State) : Prop :=
  ∃ c rest, s.pending = c :: rest ∧
    (step settings z { s with pending := rest } c).result = .ok t

/-- A number of commands is executed, with `t` after them. -/
def Reaches (settings : ScriptSettings) (z : Nat) : State → State → Prop :=
  Relation.ReflTransGen (Moves settings z)

/-- Induction along a run: from where it is done or a command fails, back over every command that
is executed. Every command takes weight from what is pending. -/
theorem induction_on_run (settings : ScriptSettings) (z : Nat) {motive : State → Prop}
    (done : ∀ s, s.pending = [] → motive s)
    (fails : ∀ s c rest e, s.pending = c :: rest →
      (step settings z { s with pending := rest } c).result = .error e → motive s)
    (moves : ∀ s c rest t, s.pending = c :: rest →
      (step settings z { s with pending := rest } c).result = .ok t → motive t → motive s)
    (s : State) : motive s := by
  induction weight : s.pending.weight using Nat.strongRecOn generalizing s with
  | ind n ih =>
    cases pending : s.pending with
    | nil => exact done s pending
    | cons c rest =>
      cases stepped : (step settings z { s with pending := rest } c).result with
      | error e => exact fails s c rest e pending stepped
      | ok t =>
        refine moves s c rest t pending stepped (ih t.pending.weight ?_ t rfl)
        rw [← weight, pending]
        exact weight_step stepped

theorem result_run_iff : (s.run settings z).result = .ok t ↔
    Reaches settings z s t ∧ t.pending = [] := by
  constructor
  · intro ran
    induction s using induction_on_run settings z with
    | done s pending =>
      rw [result_run_nil pending] at ran
      cases ran
      exact ⟨.refl, pending⟩
    | fails s c rest e pending failed =>
      rw [result_run_cons pending, failed] at ran
      cases ran
    | moves s c rest u pending stepped ih =>
      rw [result_run_cons pending, stepped] at ran
      obtain ⟨path, done⟩ := ih ran
      exact ⟨.head ⟨c, rest, pending, stepped⟩ path, done⟩
  · rintro ⟨path, done⟩
    induction path using Relation.ReflTransGen.head_induction_on with
    | refl => exact result_run_nil done
    | head move _ ih =>
      obtain ⟨c, rest, pending, stepped⟩ := move
      rw [result_run_cons pending, stepped]
      exact ih

end State

theorem Script.result_evaluate_iff {settings : ScriptSettings} {z : Nat} {script : Script}
    {b : Bool} : (evaluate settings z script).result = .ok b ↔
      ∃ t, ((State.ofScript script).run settings z).result = .ok t ∧ t.succeeds = b := by
  unfold evaluate
  rw [Traced.result_bind_eq_ok_iff]
  exact exists_congr fun t => and_congr_right fun _ => ⟨Except.ok.inj, congrArg Except.ok⟩

end CoinScript
