import CoinScript.Script.Branches
import CoinScript.Script.SignatureCheck
import CoinScript.Settings.Basic

/-!
# The machine

The machine takes the pending commands one by one. A conditional replaces the
block that follows it by one of its branches. A push that leaves exactly the
template of a payment to a script hash pending is not followed by that
template: the data is taken back from the stack, hashed, compared with the
template and read as a script, whose commands become the pending ones.

No step leaves pending commands of greater weight than those without the
command it executed. A run therefore ends, whatever the limits are.
-/

namespace CoinScript

structure State where
  pending : Script
  stack : Stack
  alt : Stack
  /-- The number of opcodes executed, constants aside. -/
  executed : Nat
deriving DecidableEq, Repr

namespace State

def ofScript (script : Script) : State := ⟨script, [], [], 0⟩

/-- The number of items on both stacks. -/
def items (s : State) : Nat := s.stack.length + s.alt.length

/-- A run succeeds if the top of the main stack is true. -/
def succeeds (s : State) : Bool :=
  match s.stack with
  | [] => false
  | top :: _ => Number.truthy top

end State

/-- Takes the condition from the stack and chooses a branch of the pending commands. -/
def chooseBranch (negated : Bool) (s : State) : Except FailureCode State :=
  match s.stack with
  | [] => .error .stackUnderflow
  | condition :: stack =>
    match Branches.ofBlock? s.pending with
    | none => .error .unbalancedConditional
    | some b => .ok { s with stack := stack, pending := b.choose (Number.truthy condition != negated) }

/-- Executes an instruction; `z` is the number that signatures sign. -/
def Instruction.apply (z : Nat) (s : State) : Instruction → Traced (Fault FailureCode) State
  | .stack i => do
    let main ← i.run s.stack
    return { s with stack := main }
  | .conditional negated => chooseBranch negated s
  | .altStack i => do
    let both ← i.run s.stack s.alt
    return { s with stack := both.1, alt := both.2 }
  | .signature i => do
    let main ← i.run z s.stack
    return { s with stack := main }

namespace State

abbrev Run := Traced (Fault ScriptFailure) State

/-- Records a failure and attaches the name of the command to it. -/
def failedAt (name : String) : Fault FailureCode → List Event × Fault ScriptFailure
  | .error code => ([.failed name code], .error ⟨code, name⟩)
  | .misuse m => ([], .misuse m)

/-- Records an event if every command is to be recorded. -/
def note (settings : ScriptSettings) (e : Event) : Traced (Fault ScriptFailure) Unit :=
  if settings.verbose then Traced.emit e else pure ()

/-- Counts an opcode that is not a constant. -/
def count (settings : ScriptSettings) (code : UInt8) (s : State) : Run :=
  if Opcode.lastConstant < code then
    if settings.maxOps < s.executed + 1 then
      Traced.fail (.error ⟨.opCount, Opcode.nameOf code⟩)
    else pure { s with executed := s.executed + 1 }
  else pure s

def executeOp (settings : ScriptSettings) (z : Nat) (code : UInt8) (s : State) : Run := do
  let name := Opcode.nameOf code
  let s ← s.count settings code
  note settings (.executing name s.stack.length)
  let outcome := match Opcode.instructionOf? code with
    | some i => i.apply z s
    | none => Traced.fail (.error .badOpcode)
  outcome.mapError (failedAt name)

/-- Replaces the pending template and the script on top of the stack, whose hash it
names, by the commands of that script. -/
def redeem (settings : ScriptSettings) (s : State) : Run :=
  match Script.scriptHash? s.pending with
  | none => Traced.fail (.error ⟨.redeemUnreadable, Opcode.nameOf Opcode.opHash160⟩)
  | some expected =>
    match s.stack with
    | [] => Traced.fail (.error ⟨.stackUnderflow, Opcode.nameOf Opcode.opHash160⟩)
    | script :: stack =>
      if Digest.hash160 script = expected then
        match Script.parseRaw settings.maxScriptSize script with
        | .error e =>
          ⟨[.redeemRejected e],
            .error (.error ⟨.redeemUnreadable, Opcode.nameOf Opcode.opHash160⟩)⟩
        | .ok commands =>
          ⟨[.redeemAccepted commands], .ok { s with stack := stack, pending := commands }⟩
      else
        ⟨[.redeemHashMismatch expected],
          .error (.error ⟨.redeemHashMismatch, Opcode.nameOf Opcode.opEqual⟩)⟩

def executePush (settings : ScriptSettings) (data : Bytes) (s : State) : Run := do
  note settings (.pushing data.length)
  let s := { s with stack := data :: s.stack }
  if settings.redeemScripts ∧ Script.isPayToScriptHash s.pending then s.redeem settings
  else return s

def execute (settings : ScriptSettings) (z : Nat) (s : State) : Command → Run
  | .op code => s.executeOp settings z code
  | .push data => s.executePush settings data

/-- Executes one command, which is no longer pending, and checks the size of the stacks. -/
def step (settings : ScriptSettings) (z : Nat) (s : State) (c : Command) : Run := do
  let t ← s.execute settings z c
  if settings.maxStackSize < t.items then Traced.fail (.error ⟨.stackSize, c.name⟩)
  else return t

/-! ## Weight -/

theorem weight_chooseBranch {negated : Bool} {s t : State}
    (h : chooseBranch negated s = .ok t) : t.pending.weight ≤ s.pending.weight := by
  unfold chooseBranch at h
  split at h
  · cases h
  split at h
  · cases h
  · rename_i b found
    cases h
    exact Nat.le_trans (b.weight_choose _) (Branches.weight_of_split? found)

theorem weight_apply {z : Nat} {i : Instruction} {s t : State}
    (h : (i.apply z s).result = .ok t) : t.pending.weight ≤ s.pending.weight := by
  cases i with
  | stack i =>
    obtain ⟨_, _, h⟩ := Traced.result_bind_eq_ok_iff.mp h
    cases h
    exact Nat.le_refl _
  | conditional negated => exact weight_chooseBranch (Traced.result_lift_eq_ok_iff.mp h)
  | altStack i =>
    obtain ⟨_, _, h⟩ := Traced.result_bind_eq_ok_iff.mp h
    cases h
    exact Nat.le_refl _
  | signature i =>
    obtain ⟨_, _, h⟩ := Traced.result_bind_eq_ok_iff.mp h
    cases h
    exact Nat.le_refl _

theorem pending_count {settings : ScriptSettings} {code : UInt8} {s t : State}
    (h : (s.count settings code).result = .ok t) : t.pending = s.pending := by
  unfold count at h
  split at h
  · split at h <;> cases h
    rfl
  · cases h
    rfl

theorem weight_executeOp {settings : ScriptSettings} {z : Nat} {code : UInt8} {s t : State}
    (h : (s.executeOp settings z code).result = .ok t) :
    t.pending.weight ≤ s.pending.weight := by
  obtain ⟨u, counted, h⟩ := Traced.result_bind_eq_ok_iff.mp h
  obtain ⟨_, _, h⟩ := Traced.result_bind_eq_ok_iff.mp h
  rw [← pending_count counted]
  have h := Traced.result_mapError_eq_ok_iff.mp h
  split at h
  · exact weight_apply h
  · cases h

/-- The commands of a redeemed script weigh less than its push and the template. -/
theorem weight_redeem {settings : ScriptSettings} {data : Bytes} {stack : Stack} {s t : State}
    (top : s.stack = data :: stack) (h : (s.redeem settings).result = .ok t) :
    t.pending.weight ≤ data.length := by
  unfold redeem at h
  rw [top] at h
  split at h
  · cases h
  · dsimp only at h
    split at h
    · split at h
      · cases h
      · rename_i commands parsed
        cases h
        exact Script.weight_of_parseRaw parsed
    · cases h

theorem weight_executePush {settings : ScriptSettings} {data : Bytes} {s t : State}
    (h : (s.executePush settings data).result = .ok t) :
    t.pending.weight ≤ data.length + s.pending.weight := by
  obtain ⟨_, _, h⟩ := Traced.result_bind_eq_ok_iff.mp h
  dsimp only at h
  split at h
  · exact Nat.le_trans (weight_redeem rfl h) (Nat.le_add_right _ _)
  · cases h
    exact Nat.le_add_left _ _

/-- Every step takes weight from the pending commands. -/
theorem weight_step {settings : ScriptSettings} {z : Nat} {c : Command} {s t : State}
    (h : (s.step settings z c).result = .ok t) :
    t.pending.weight < c.weight + s.pending.weight := by
  obtain ⟨u, executed, h⟩ := Traced.result_bind_eq_ok_iff.mp h
  have same : u = t := by
    split at h <;> cases h
    rfl
  subst same
  cases c with
  | op code =>
    have := weight_executeOp executed
    simp only [Command.weight]
    omega
  | push data =>
    have := weight_executePush executed
    simp only [Command.weight]
    omega

/-- Executes all pending commands. -/
def run (settings : ScriptSettings) (z : Nat) (s : State) : Run :=
  match _pending : s.pending with
  | [] => pure s
  | c :: rest =>
    let first := step settings z { s with pending := rest } c
    match _stepped : first.result with
    | .error e => ⟨first.events, .error e⟩
    | .ok t =>
      let others := run settings z t
      ⟨first.events ++ others.events, others.result⟩
termination_by s.pending.weight
decreasing_by
  rw [_pending]
  exact weight_step _stepped

end State

namespace Script

/-- Whether the script succeeds on empty stacks. -/
def evaluate (settings : ScriptSettings) (z : Nat) (s : Script) : Traced (Fault ScriptFailure) Bool := do
  let final ← (State.ofScript s).run settings z
  return final.succeeds

end Script

end CoinScript
