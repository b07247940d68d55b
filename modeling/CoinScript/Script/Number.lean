import CoinScript.Bytes

/-!
# Numbers on the stack

A number is stored low byte first, with its sign in the high bit of the last
byte. Zero is the empty byte string. A magnitude whose own high bit is taken
gets one more byte for the sign. Reading is more lenient than writing: leading
zero bytes and a negative zero are accepted, up to a width of eight bytes.
-/

namespace CoinScript.Number

/-- Puts a sign on the low-byte-first digits of a magnitude. -/
def sign (negative : Bool) : Bytes → Bytes
  | [] => []
  | [b] =>
    if b < 0x80 then [if negative then b + 0x80 else b]
    else [b, if negative then 0x80 else 0x00]
  | b :: c :: bs => b :: sign negative (c :: bs)

def encode (n : Int) : Bytes :=
  sign (n < 0) (Bytes.digitsLE n.natAbs)

/-- The value of the bytes without the sign bit. -/
def magnitude : Bytes → Nat
  | [] => 0
  | [b] => b.toNat % 128
  | b :: c :: bs => b.toNat + 256 * magnitude (c :: bs)

def isNegative : Bytes → Bool
  | [] => false
  | [b] => 0x80 ≤ b
  | _ :: c :: bs => isNegative (c :: bs)

/-- The value of a byte string of any width. -/
def value (bs : Bytes) : Int :=
  if isNegative bs then -(magnitude bs : Int) else magnitude bs

/-- The value of a byte string of at most eight bytes. -/
def decode? (bs : Bytes) : Option Int :=
  if bs.length ≤ 8 then some (value bs) else none

/-- Whether some byte is not zero, the sign bit of the last byte aside. -/
def truthy : Bytes → Bool
  | [] => false
  | [b] => b != 0x00 && b != 0x80
  | b :: c :: bs => b != 0x00 || truthy (c :: bs)

def ofBool (b : Bool) : Bytes :=
  encode (if b then 1 else 0)

end CoinScript.Number
