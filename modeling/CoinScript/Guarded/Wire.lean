import CoinScript.Guarded.Basic
import CoinScript.Script.Wire

/-!
# Reading a script by positions

The reader goes through the bytes of a script with a position. It looks for
the length of a push and for its data with operations that tell whether they
are there, and reaches for everything else by an index.
-/

namespace CoinScript

open Guarded

namespace Reading

/-- A push of the `length` bytes from a position on. -/
def pushAt (data : Bytes) (length position : Nat) : Guarded ParseError (Command × Nat) :=
  match range? data position (position + length) with
  | none => fail (.truncatedPush length position)
  | some payload => .ok (.push payload, position + length)

/-- The command at a position, and the position behind it. -/
def commandAt (data : Bytes) (position : Nat) : Guarded ParseError (Command × Nat) := do
  let first ← element data position
  if 0x01 ≤ first ∧ first ≤ 0x4b then pushAt data first.toNat (position + 1)
  else if first = Opcode.pushData1 then
    match data[position + 1]? with
    | none => fail (.truncatedLength 1)
    | some length => pushAt data length.toNat (position + 2)
  else if first = Opcode.pushData2 then
    match range? data (position + 1) (position + 3) with
    | none => fail (.truncatedLength 2)
    | some length => do
      let low ← element length 0
      let high ← element length 1
      pushAt data (low.toNat + 256 * high.toNat) (position + 3)
  else return (.op first, position + 1)

theorem le_of_pushAt {data : Bytes} {length position next : Nat} {c : Command}
    (read : pushAt data length position = .ok (c, next)) : position ≤ next := by
  unfold pushAt at read
  split at read
  · cases read
  · cases read
    exact Nat.le_add_right position length

theorem lt_of_commandAt {data : Bytes} {position next : Nat} {c : Command}
    (read : commandAt data position = .ok (c, next)) : position < next := by
  unfold commandAt element at read
  split at read
  · change (if _ then _ else _) = _ at read
    split at read
    · exact le_of_pushAt read
    split at read
    · split at read
      · cases read
      · exact Nat.le_trans (Nat.le_succ _) (le_of_pushAt read)
    split at read
    · split at read
      · cases read
      · rename_i length found
        rcases length with _ | ⟨low, _ | ⟨high, others⟩⟩
        · cases read
        · cases read
        · have forward : position + 3 ≤ next := le_of_pushAt read
          omega
    · cases read
      exact Nat.lt_succ_self position
  · cases read

end Reading

namespace Script

/-- Reads commands from a position on until the bytes end. -/
def parseAt (data : Bytes) (position : Nat) : Guarded ParseError Script :=
  if position < data.length then
    match _read : Reading.commandAt data position with
    | .error e => .error e
    | .ok (c, next) => (parseAt data next).map (c :: ·)
  else .ok []
termination_by data.length - position
decreasing_by
  have forward := Reading.lt_of_commandAt _read
  omega

/-- Reads the raw form of a script of at most `limit` bytes. -/
def guardedParseRaw (limit : Nat) (data : Bytes) : Guarded ParseError Script :=
  if limit < data.length then fail (.tooLong data.length limit)
  else parseAt data 0

end Script

end CoinScript
