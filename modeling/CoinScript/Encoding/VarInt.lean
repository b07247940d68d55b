import CoinScript.Bytes

/-!
# Variable-length integers

A number below `fd` is one byte. Otherwise a marker byte `fd`, `fe` or `ff` is
followed by the number in two, four or eight bytes, low byte first. A number
may only be written in its shortest form, and decoding refuses all others.
-/

namespace CoinScript

inductive VarIntError where
  | truncated
  | notMinimal
deriving DecidableEq, Repr

def VarIntError.text : VarIntError → String
  | truncated => "Insufficient bytes to decode VarInt"
  | notMinimal => "Non-minimal VarInt encoding"

def VarIntError.message (e : VarIntError) : String :=
  s!"Serialization error: {e.text}"

namespace VarInt

/-- The encoding of a number below `2^64`. -/
def encode (n : Nat) : Bytes :=
  if n < 0xfd then [n.toUInt8]
  else if n < 0x10000 then 0xfd :: Bytes.ofNatLE 2 n
  else if n < 0x100000000 then 0xfe :: Bytes.ofNatLE 4 n
  else 0xff :: Bytes.ofNatLE 8 n

/-- A number in `width` bytes that would not have fitted a shorter form, together
with the length of the whole encoding. -/
def decodeWide (width least : Nat) (body : Bytes) : Except VarIntError (Nat × Nat) :=
  match Bytes.splitAt? width body with
  | none => .error .truncated
  | some (digits, _) =>
    let n := Bytes.toNatLE digits
    if n < least then .error .notMinimal else .ok (n, 1 + width)

/-- The number at the start of a byte string and the count of bytes it takes. -/
def decode : Bytes → Except VarIntError (Nat × Nat)
  | [] => .error .truncated
  | marker :: body =>
    if marker < 0xfd then .ok (marker.toNat, 1)
    else if marker = 0xfd then decodeWide 2 0xfd body
    else if marker = 0xfe then decodeWide 4 0x10000 body
    else decodeWide 8 0x100000000 body

end VarInt

end CoinScript
