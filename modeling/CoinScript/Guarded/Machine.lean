import CoinScript.Guarded.Signature
import CoinScript.Guarded.Wire
import CoinScript.Script.Machine

/-!
# The machine on vectors

The machine keeps its commands in a queue and its items in two piles. Blocks
are dealt out in a loop that counts the open blocks up and down. A redemption
takes the template from the queue and the script from the pile, and has a case
for either of them being missing. Nothing is meant to reach those cases,
because the template was recognised and the script was pushed just before.
-/

namespace CoinScript

open Guarded

/-! ## Blocks -/

namespace Branches

/-- Adds a command at the end of one of the branches. -/
def snoc (b : Branches) (inFirst : Bool) (c : Command) : Branches :=
  if inFirst then { b with first := b.first ++ [c] } else { b with second := b.second ++ [c] }

/-- Deals out commands to the branches collected so far, up to the end of the block. -/
def collect (b : Branches) (inFirst : Bool) (depth : Nat) : Script → Guarded FailureCode Branches
  | [] => fail .unbalancedConditional
  | c :: rest =>
    match c.bracket? with
    | some .opening => collect (b.snoc inFirst c) inFirst (depth + 1) rest
    | some .alternative =>
      if depth = 0 then collect b (!inFirst) depth rest
      else collect (b.snoc inFirst c) inFirst depth rest
    | some .closing =>
      if depth = 0 then .ok { b with rest := rest }
      else do
        let depth ← difference depth 1
        collect (b.snoc inFirst c) inFirst depth rest
    | none => collect (b.snoc inFirst c) inFirst depth rest

end Branches

/-! ## Steps -/

structure Memory where
  queue : Script
  stack : Pile
  alt : Pile
  /-- The number of opcodes executed, constants aside. -/
  executed : Nat
deriving DecidableEq, Repr

namespace Memory

def ofScript (script : Script) : Memory := ⟨script, [], [], 0⟩

def chooseBranch (negated : Bool) (m : Memory) : Guarded FailureCode Memory := do
  let (condition, stack) ← m.stack.pop
  let b ← Branches.collect ⟨[], [], []⟩ true 0 m.queue
  let truth ← Number.guardedTruthy condition
  let chosen := if truth != negated then b.first else b.second
  return { m with stack := stack, queue := chosen ++ b.rest }

end Memory

def Instruction.onPiles (z : Nat) (m : Memory) : Instruction → Guarded FailureCode Memory
  | .stack i => do
    let main ← i.onPile m.stack
    return { m with stack := main }
  | .conditional negated => m.chooseBranch negated
  | .altStack i => do
    let both ← i.onPiles m.stack m.alt
    return { m with stack := both.1, alt := both.2 }
  | .signature i => do
    let main ← i.onPile z m.stack
    return { m with stack := main }

namespace Memory

def count (settings : ScriptSettings) (code : UInt8) (m : Memory) : Guarded ScriptFailure Memory :=
  if Opcode.lastConstant < code then
    if settings.maxOps < m.executed + 1 then fail ⟨.opCount, Opcode.nameOf code⟩
    else .ok { m with executed := m.executed + 1 }
  else .ok m

def executeOp (settings : ScriptSettings) (z : Nat) (code : UInt8) (m : Memory) :
    Guarded ScriptFailure Memory := do
  let m ← m.count settings code
  let outcome := match Opcode.instructionOf? code with
    | some i => i.onPiles z m
    | none => fail .badOpcode
  mapFailure (fun reason => ⟨reason, Opcode.nameOf code⟩) outcome

/-- Takes the template from the queue and the script whose hash it names from the pile, and puts the
commands of that script into the queue. -/
def redeem (settings : ScriptSettings) (m : Memory) : Guarded ScriptFailure Memory :=
  match m.queue with
  | .op first :: .push expected :: .op last :: rest =>
    if first = Opcode.opHash160 ∧ last = Opcode.opEqual then
      match m.stack.getLast? with
      | none => crash (.dead .nothingToRedeem)
      | some script =>
        if Digest.hash160 script ≠ expected then
          fail ⟨.redeemHashMismatch, Opcode.nameOf Opcode.opEqual⟩
        else do
          let commands ← mapFailure (fun _ => ⟨.redeemUnreadable, Opcode.nameOf Opcode.opHash160⟩)
            (Script.guardedParseRaw settings.maxScriptSize script)
          return { m with stack := m.stack.dropLast, queue := rest ++ commands }
    else crash (.dead .template)
  | _ => crash (.dead .template)

def executePush (settings : ScriptSettings) (data : Bytes) (m : Memory) :
    Guarded ScriptFailure Memory :=
  let m := { m with stack := m.stack.push data }
  if settings.redeemScripts ∧ Script.isPayToScriptHash m.queue then m.redeem settings else .ok m

def execute (settings : ScriptSettings) (z : Nat) (m : Memory) :
    Command → Guarded ScriptFailure Memory
  | .op code => m.executeOp settings z code
  | .push data => m.executePush settings data

/-- Executes one command, which is no longer in the queue, and checks the size of the piles. -/
def step (settings : ScriptSettings) (z : Nat) (m : Memory) (c : Command) :
    Guarded ScriptFailure Memory := do
  let n ← m.execute settings z c
  if settings.maxStackSize < n.stack.length + n.alt.length then fail ⟨.stackSize, c.name⟩
  else return n

end Memory

end CoinScript
