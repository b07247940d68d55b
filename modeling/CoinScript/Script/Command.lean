import CoinScript.Script.Opcode

/-!
# Scripts

A script is a list of commands, and a command is an opcode or a push of data.
A push is kept apart from the opcodes that push constants: the empty push and
the opcode `00` put the same item on the stack but are different commands.

The weight of a script counts one for every command and one for every byte of
data. No step of an evaluation makes it larger.
-/

namespace CoinScript

inductive Command where
  | op (code : UInt8)
  | push (data : Bytes)
deriving DecidableEq, Repr

abbrev Script := List Command

namespace Command

/-- The command with this opcode; a push is no opcode. -/
def isOp (c : Command) (code : UInt8) : Bool := c == .op code

/-- The name under which failures of the command are reported. -/
def name : Command → String
  | op code => Opcode.nameOf code
  | push _ => "OP_PUSHDATA"

/-- The name of an opcode, the bytes of a push. -/
def text : Command → String
  | op code => Opcode.nameOf code
  | push data => hexOfBytes data

def weight : Command → Nat
  | op _ => 1
  | push data => 1 + data.length

theorem weight_pos (c : Command) : 0 < c.weight := by
  cases c with
  | op code => exact Nat.zero_lt_one
  | push data => exact Nat.lt_of_lt_of_le Nat.zero_lt_one (Nat.le_add_right 1 data.length)

end Command

namespace Script

def text (s : Script) : String :=
  " ".intercalate (s.map Command.text)

def weight : Script → Nat
  | [] => 0
  | c :: rest => c.weight + weight rest

@[simp] theorem weight_nil : weight [] = 0 := rfl

@[simp] theorem weight_cons (c : Command) (s : Script) : weight (c :: s) = c.weight + weight s := rfl

@[simp] theorem weight_append (s t : Script) : weight (s ++ t) = weight s + weight t := by
  induction s with
  | nil => simp
  | cons c s ih => simp [ih, Nat.add_assoc]

/-! ## Templates -/

/-- Pays to a public key that is known by its digest. -/
def payToKeyHash (hash : Bytes) : Script :=
  [.op Opcode.opDup, .op Opcode.opHash160, .push hash, .op Opcode.opEqualVerify,
    .op Opcode.opCheckSig]

/-- Pays to a script that is known by its digest. -/
def payToScriptHash (hash : Bytes) : Script :=
  [.op Opcode.opHash160, .push hash, .op Opcode.opEqual]

/-- The length of the digests in both templates. -/
def hashLength : Nat := 20

def keyHash? : Script → Option Bytes
  | [c₁, c₂, .push hash, c₃, c₄] =>
    if [c₁, c₂, .push hash, c₃, c₄] = payToKeyHash hash ∧ hash.length = hashLength then some hash
    else none
  | _ => none

def scriptHash? : Script → Option Bytes
  | [c₁, .push hash, c₂] =>
    if [c₁, .push hash, c₂] = payToScriptHash hash ∧ hash.length = hashLength then some hash
    else none
  | _ => none

def isPayToKeyHash (s : Script) : Bool := (keyHash? s).isSome

def isPayToScriptHash (s : Script) : Bool := (scriptHash? s).isSome

theorem scriptHash?_eq_some_iff {s : Script} {hash : Bytes} :
    scriptHash? s = some hash ↔ s = payToScriptHash hash ∧ hash.length = hashLength := by
  constructor
  · intro h
    unfold scriptHash? at h
    split at h
    · split at h
      · rename_i matched
        cases h
        exact matched
      · cases h
    · cases h
  · rintro ⟨rfl, length⟩
    simp [scriptHash?, payToScriptHash, length]

theorem keyHash?_eq_some_iff {s : Script} {hash : Bytes} :
    keyHash? s = some hash ↔ s = payToKeyHash hash ∧ hash.length = hashLength := by
  constructor
  · intro h
    unfold keyHash? at h
    split at h
    · split at h
      · rename_i matched
        cases h
        exact matched
      · cases h
    · cases h
  · rintro ⟨rfl, length⟩
    simp [keyHash?, payToKeyHash, length]

end Script

end CoinScript
