import CoinScript.Encoding.VarInt
import CoinScript.Script.Command

/-!
# The wire form of scripts

In the raw form the commands follow one another. An opcode is its byte; a push
is a length and the data, where the length is a single byte up to 75, or
stands in one byte after `4c` or in two bytes, low byte first, after `4d`. The
full form puts the length of the raw form in front.

Reading accepts every form of length, whether or not a shorter one would do.
Writing uses the shortest one and refuses data of 520 bytes or more.
-/

namespace CoinScript

inductive ParseError where
  | badLength (e : VarIntError)
  | truncatedLength (width : Nat)
  | truncatedPush (length offset : Nat)
  | tooLong (length limit : Nat)
  | declaredTooLong (declared limit : Nat)
  | truncatedScript (declared available : Nat)
  | trailingBytes (count : Nat)
deriving DecidableEq, Repr

def ParseError.text : ParseError → String
  | badLength e => e.text
  | truncatedLength width => s!"truncated OP_PUSHDATA{width} length"
  | truncatedPush length offset =>
    s!"push of {length} bytes at offset {offset} runs past end of script"
  | tooLong length limit => s!"script length {length} exceeds limit {limit}"
  | declaredTooLong declared limit => s!"declared script length {declared} exceeds limit {limit}"
  | truncatedScript declared available =>
    s!"declared script length {declared} but only {available} bytes follow"
  | trailingBytes count => s!"{count} trailing bytes after script"

def ParseError.message : ParseError → String
  | badLength e => e.message
  | e => s!"Script parse error: {e.text}"

/-- Why a script has no wire form. -/
inductive SerializeError where
  | pushTooLong (length : Nat)
deriving DecidableEq, Repr

def SerializeError.message : SerializeError → String
  | pushTooLong length => s!"Serialization error: data push of {length} bytes is too long"

/-- A command that has been read, what follows it, and the offset of what follows. -/
structure Reading where
  command : Command
  rest : Bytes
  offset : Nat
deriving DecidableEq, Repr

namespace Reading

/-- Reads the data of a push. -/
def push (length offset : Nat) (rest : Bytes) : Except ParseError Reading :=
  match Bytes.splitAt? length rest with
  | none => .error (.truncatedPush length offset)
  | some (data, rest) => .ok ⟨.push data, rest, offset + length⟩

/-- Reads the command that begins with `first`; `offset` is that of the byte after it. -/
def command? (first : UInt8) (offset : Nat) (rest : Bytes) : Except ParseError Reading :=
  if 0x01 ≤ first ∧ first ≤ 0x4b then push first.toNat offset rest
  else if first = Opcode.pushData1 then
    match rest with
    | low :: rest => push low.toNat (offset + 1) rest
    | [] => .error (.truncatedLength 1)
  else if first = Opcode.pushData2 then
    match rest with
    | low :: high :: rest => push (low.toNat + 256 * high.toNat) (offset + 2) rest
    | _ => .error (.truncatedLength 2)
  else .ok ⟨.op first, rest, offset⟩

theorem weight_of_push {length offset : Nat} {rest : Bytes} {r : Reading}
    (h : push length offset rest = .ok r) :
    r.command.weight + r.rest.length = 1 + rest.length := by
  unfold push at h
  split at h
  · cases h
  · rename_i data tail split
    cases h
    obtain ⟨rfl, _⟩ := Bytes.splitAt?_eq_some_iff.mp split
    simp [Command.weight]
    omega

/-- A command weighs no more than the bytes it was read from. -/
theorem weight_of_command? {first : UInt8} {offset : Nat} {rest : Bytes} {r : Reading}
    (h : command? first offset rest = .ok r) :
    r.command.weight + r.rest.length ≤ 1 + rest.length := by
  unfold command? at h
  split at h
  · exact Nat.le_of_eq (weight_of_push h)
  split at h
  · split at h
    · have := weight_of_push h
      simp only [List.length_cons]
      omega
    · cases h
  split at h
  · split at h
    · have := weight_of_push h
      simp only [List.length_cons]
      omega
    · cases h
  · cases h
    simp [Command.weight]

theorem length_rest_of_command? {first : UInt8} {offset : Nat} {rest : Bytes} {r : Reading}
    (h : command? first offset rest = .ok r) : r.rest.length < (first :: rest).length := by
  have bound := weight_of_command? h
  have positive := r.command.weight_pos
  simp only [List.length_cons]
  omega

end Reading

namespace Script

/-- Reads commands until the bytes end; `offset` is that of the first byte. -/
def parseFrom (offset : Nat) (data : Bytes) : Except ParseError Script :=
  match data with
  | [] => .ok []
  | first :: rest =>
    match _h : Reading.command? first (offset + 1) rest with
    | .error e => .error e
    | .ok r => (parseFrom r.offset r.rest).map (r.command :: ·)
termination_by data.length
decreasing_by exact Reading.length_rest_of_command? _h

def parseCommands (data : Bytes) : Except ParseError Script :=
  parseFrom 0 data

/-- Reads the raw form of a script of at most `limit` bytes. -/
def parseRaw (limit : Nat) (data : Bytes) : Except ParseError Script :=
  if limit < data.length then .error (.tooLong data.length limit)
  else parseCommands data

/-- Where the commands of a script in full form stand in a byte string. -/
structure Extent where
  start : Nat
  stop : Nat
deriving DecidableEq, Repr

/-- Reads the length in front of a script of at most `limit` bytes. -/
def extent (limit : Nat) (data : Bytes) : Except ParseError Extent := do
  let (declared, width) ← (VarInt.decode data).mapError .badLength
  if limit < declared then throw (.declaredTooLong declared limit)
  return ⟨width, width + declared⟩

/-- Reads the full form of a script at the start of a byte string, and tells how many
bytes it takes. -/
def parse (limit : Nat) (data : Bytes) : Except ParseError (Script × Nat) := do
  let e ← extent limit data
  if data.length < e.stop then
    throw (.truncatedScript (e.stop - e.start) (data.length - e.start))
  let commands ← parseCommands ((data.take e.stop).drop e.start)
  return (commands, e.stop)

/-- Reads the full form of a script that takes up the whole byte string. -/
def parseExact (limit : Nat) (data : Bytes) : Except ParseError Script := do
  let (commands, used) ← parse limit data
  if used = data.length then return commands
  throw (.trailingBytes (data.length - used))

/-- The data of a push is shorter than this when it is written. -/
def maxPush : Nat := 520

def serializeCommand : Command → Except SerializeError Bytes
  | .op code => .ok [code]
  | .push data =>
    if data.length ≤ 75 then .ok (data.length.toUInt8 :: data)
    else if data.length ≤ 255 then .ok (Opcode.pushData1 :: data.length.toUInt8 :: data)
    else if data.length < maxPush then
      .ok (Opcode.pushData2 :: Bytes.ofNatLE 2 data.length ++ data)
    else .error (.pushTooLong data.length)

/-- The raw form. -/
def serializeRaw (s : Script) : Except SerializeError Bytes := do
  let pieces ← s.mapM serializeCommand
  return pieces.flatten

/-- The full form. -/
def serialize (s : Script) : Except SerializeError Bytes := do
  let raw ← s.serializeRaw
  return VarInt.encode raw.length ++ raw

/-- The unlocking script for a payment to the hash of `redeem`: the given pushes, then
the raw form of `redeem` as one more. -/
def spendScriptHash (pushes : List Bytes) (redeem : Script) : Except SerializeError Script := do
  let raw ← redeem.serializeRaw
  return pushes.map .push ++ [.push raw]

/-- A script weighs no more than the bytes it was read from. -/
theorem weight_of_parseFrom {offset : Nat} {data : Bytes} {s : Script}
    (h : parseFrom offset data = .ok s) : s.weight ≤ data.length := by
  fun_induction parseFrom offset data generalizing s with
  | case1 => cases h; simp
  | case2 => cases h
  | case3 offset first rest r read ih =>
    have bound := Reading.weight_of_command? read
    cases tail : parseFrom r.offset r.rest with
    | error e => rw [tail] at h; cases h
    | ok t =>
      rw [tail] at h
      cases h
      have := ih tail
      simp only [weight_cons, List.length_cons]
      omega

theorem weight_of_parseRaw {limit : Nat} {data : Bytes} {s : Script}
    (h : parseRaw limit data = .ok s) : s.weight ≤ data.length := by
  unfold parseRaw at h
  split at h
  · cases h
  · exact weight_of_parseFrom h

end Script

end CoinScript
