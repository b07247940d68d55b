import CoinScript.Guarded.Wire

/-!
# Reading a script with positions of sixty-four bits

A position is a sum of lengths, and in a machine it is a number of sixty-four
bits. The reader here is that of positions, but it crashes where a sum has no
room in one, whether or not the bytes at the position exist. It begins with the
length in front of a script, which may be any number of sixty-four bits.
-/

namespace CoinScript

open Guarded

/-- The sum of two sizes. -/
def Guarded.sum {ε : Type} (a b : Nat) : Guarded ε Nat :=
  if a + b < 0x10000000000000000 then .ok (a + b) else crash (.overflow (a + b))

/-- What follows a sum that has room goes on with it. -/
theorem Guarded.of_sum_bind {ε α : Type} {a b : Nat} {next : Nat → Guarded ε α} {r : α}
    (returned : (sum a b >>= next) = .ok r) : next (a + b) = .ok r := by
  unfold sum at returned
  split at returned
  · exact returned
  · cases returned

namespace Reading

/-- A push of the `length` bytes from a position on. -/
def sizedPushAt (data : Bytes) (length position : Nat) : Guarded ParseError (Command × Nat) := do
  let next ← sum position length
  match range? data position next with
  | none => fail (.truncatedPush length position)
  | some payload => return (.push payload, next)

/-- The command at a position, and the position behind it. -/
def sizedCommandAt (data : Bytes) (position : Nat) : Guarded ParseError (Command × Nat) := do
  let first ← element data position
  let position ← sum position 1
  if 0x01 ≤ first ∧ first ≤ 0x4b then sizedPushAt data first.toNat position
  else if first = Opcode.pushData1 then
    match data[position]? with
    | none => fail (.truncatedLength 1)
    | some length => do
      let position ← sum position 1
      sizedPushAt data length.toNat position
  else if first = Opcode.pushData2 then do
    let next ← sum position 2
    match range? data position next with
    | none => fail (.truncatedLength 2)
    | some length => do
      let low ← element length 0
      let high ← element length 1
      sizedPushAt data (low.toNat + 256 * high.toNat) next
  else return (.op first, position)

variable {data : Bytes} {length position : Nat} {r : Command × Nat}

theorem pushAt_of_sizedPushAt (read : sizedPushAt data length position = .ok r) :
    pushAt data length position = .ok r := by
  have found := of_sum_bind read
  unfold pushAt
  cases range : range? data position (position + length) with
  | none =>
    rw [range] at found
    cases found
  | some payload =>
    rw [range] at found
    exact found

/-- What is read with positions of sixty-four bits is what is read with any positions. -/
theorem commandAt_of_sizedCommandAt (read : sizedCommandAt data position = .ok r) :
    commandAt data position = .ok r := by
  unfold sizedCommandAt at read
  unfold commandAt
  cases found : (element data position : Guarded ParseError UInt8) with
  | error halt =>
    rw [found] at read
    cases read
  | ok first =>
    rw [found] at read
    have read := of_sum_bind read
    change (if _ then _ else _) = _
    by_cases direct : 0x01 ≤ first ∧ first ≤ 0x4b
    · rw [if_pos direct] at read ⊢
      exact pushAt_of_sizedPushAt read
    rw [if_neg direct] at read ⊢
    by_cases oneByte : first = Opcode.pushData1
    · rw [if_pos oneByte] at read ⊢
      cases byte : data[position + 1]? with
      | none =>
        rw [byte] at read
        cases read
      | some length =>
        rw [byte] at read
        exact pushAt_of_sizedPushAt (of_sum_bind read)
    rw [if_neg oneByte] at read ⊢
    by_cases twoBytes : first = Opcode.pushData2
    · rw [if_pos twoBytes] at read ⊢
      have read := of_sum_bind read
      have behind : position + 1 + 2 = position + 3 := rfl
      rw [behind] at read
      rcases range : range? data (position + 1) (position + 3) with
        _ | _ | ⟨low, _ | ⟨high, others⟩⟩
      · rw [range] at read
        cases read
      · rw [range] at read
        cases read
      · rw [range] at read
        cases read
      · rw [range] at read
        have pushed : sizedPushAt data (low.toNat + 256 * high.toNat) (position + 3) = .ok r :=
          read
        exact pushAt_of_sizedPushAt pushed
    · rw [if_neg twoBytes] at read ⊢
      exact read

end Reading

namespace Script

/-- Reads commands from a position on until the bytes end. -/
def sizedParseAt (data : Bytes) (position : Nat) : Guarded ParseError Script :=
  if position < data.length then
    match _read : Reading.sizedCommandAt data position with
    | .error e => .error e
    | .ok (c, next) => (sizedParseAt data next).map (c :: ·)
  else .ok []
termination_by data.length - position
decreasing_by
  have forward := Reading.lt_of_commandAt (Reading.commandAt_of_sizedCommandAt _read)
  omega

/-- Reads a script of which the first `width` bytes have said that it has `declared` bytes. -/
def sizedParseDeclared (data : Bytes) (width declared : Nat) :
    Guarded ParseError (Script × Nat) := do
  let stop ← sum width declared
  match range? data width stop with
  | none => do
    let available ← difference data.length width
    fail (.truncatedScript declared available)
  | some body => do
    let commands ← sizedParseAt body 0
    return (commands, stop)

/-- Reads the full form of a script of at most `limit` bytes at the start of a byte string, and
tells how many bytes it takes. -/
def sizedParse (limit : Nat) (data : Bytes) : Guarded ParseError (Script × Nat) := do
  let (declared, width) ← ofResult ((VarInt.decode data).mapError .badLength)
  if limit < declared then fail (.declaredTooLong declared limit)
  else sizedParseDeclared data width declared

end Script

end CoinScript
