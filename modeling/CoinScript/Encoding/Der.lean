import CoinScript.Ecdsa.Verification

/-!
# DER signatures

A signature is a sequence of two integers, each with a marker, a length of one
byte, and its big-endian digits. The encoder writes as few digits as possible,
with a zero byte in front of a digit whose high bit would read as a sign; its
length bytes keep only their low eight bits. The decoder insists that lengths
add up to the whole input, and is lenient in the digits: leading zeros and a
high bit are accepted, and the value is always read as unsigned.
-/

namespace CoinScript

inductive DerError where
  | expectedSequence
  | missingSequenceLength
  | longSequenceLength
  | sequenceLength (declared actual : Nat)
  | expectedInteger
  | missingIntegerLength
  | emptyInteger
  | longIntegerLength
  | integerTruncated
  | trailingBytes
deriving DecidableEq, Repr

def DerError.text : DerError → String
  | expectedSequence => "expected SEQUENCE marker 0x30"
  | missingSequenceLength => "missing SEQUENCE length"
  | longSequenceLength => "long-form SEQUENCE length"
  | sequenceLength declared actual =>
    s!"SEQUENCE length {declared} does not match {actual} bytes of content"
  | expectedInteger => "expected INTEGER marker 0x02"
  | missingIntegerLength => "missing INTEGER length"
  | emptyInteger => "zero-length INTEGER"
  | longIntegerLength => "long-form INTEGER length"
  | integerTruncated => "INTEGER runs past end of signature"
  | trailingBytes => "trailing bytes after s"

def DerError.message (e : DerError) : String :=
  s!"Invalid signature: {e.text}"

namespace Der

def sequenceMarker : UInt8 := 0x30

def integerMarker : UInt8 := 0x02

/-- The digits of `n`, the first of them below `80`. -/
def integerDigits (n : Nat) : Bytes :=
  match Bytes.minimalBE n with
  | [] => []
  | b :: bs => if b < 0x80 then b :: bs else 0 :: b :: bs

def encodeInteger (n : Nat) : Bytes :=
  let digits := integerDigits n
  integerMarker :: digits.length.toUInt8 :: digits

def encode (sig : Signature) : Bytes :=
  let body := encodeInteger sig.r ++ encodeInteger sig.s
  sequenceMarker :: body.length.toUInt8 :: body

/-- The integer at the start of a byte string, and what follows it. -/
def decodeInteger : Bytes → Except DerError (Nat × Bytes)
  | [] => .error .expectedInteger
  | marker :: rest =>
    if marker ≠ integerMarker then .error .expectedInteger
    else match rest with
      | [] => .error .missingIntegerLength
      | length :: rest =>
        if length = 0 then .error .emptyInteger
        else if 0x80 ≤ length then .error .longIntegerLength
        else match Bytes.splitAt? length.toNat rest with
          | none => .error .integerTruncated
          | some (digits, rest) => .ok (Bytes.toNatBE digits, rest)

def decode : Bytes → Except DerError Signature
  | [] => .error .expectedSequence
  | marker :: rest =>
    if marker ≠ sequenceMarker then .error .expectedSequence
    else match rest with
      | [] => .error .missingSequenceLength
      | length :: content =>
        if 0x80 ≤ length then .error .longSequenceLength
        else if length.toNat ≠ content.length then
          .error (.sequenceLength length.toNat content.length)
        else do
          let (r, content) ← decodeInteger content
          let (s, content) ← decodeInteger content
          if content = [] then return ⟨r, s⟩ else throw .trailingBytes

end Der

end CoinScript
