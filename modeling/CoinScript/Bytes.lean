/-!
# Byte strings

A byte string is a list of bytes, first byte first. Numbers are read and
written in both byte orders; a written number either has exactly a given
width, keeping its low bytes, or is as short as it can be. Hexadecimal text
is lower case.
-/

namespace CoinScript

abbrev Bytes := List UInt8

namespace Bytes

/-- The value of a byte string whose first byte is the least significant. -/
def toNatLE : Bytes → Nat
  | [] => 0
  | b :: bs => b.toNat + 256 * toNatLE bs

/-- The value of a byte string whose first byte is the most significant. -/
def toNatBE (bs : Bytes) : Nat :=
  toNatLE bs.reverse

/-- The low `width` bytes of `n`, least significant first. -/
def ofNatLE : (width n : Nat) → Bytes
  | 0, _ => []
  | width + 1, n => n.toUInt8 :: ofNatLE width (n / 256)

/-- The low `width` bytes of `n`, most significant first. -/
def ofNatBE (width n : Nat) : Bytes :=
  (ofNatLE width n).reverse

/-- The bytes of `n`, least significant first, without a zero byte at the end. -/
def digitsLE (n : Nat) : Bytes :=
  if n = 0 then [] else n.toUInt8 :: digitsLE (n / 256)
termination_by n

/-- The bytes of `n`, most significant first, without leading zeros; zero is one zero byte. -/
def minimalBE (n : Nat) : Bytes :=
  if n = 0 then [0] else (digitsLE n).reverse

/-- The first `n` bytes and the rest, if there are that many. -/
def splitAt? (n : Nat) (bs : Bytes) : Option (Bytes × Bytes) :=
  let front := bs.take n
  if front.length = n then some (front, bs.drop n) else none

/-- Consecutive pieces of `n + 1` bytes; the last may be shorter. -/
def pieces (n : Nat) (bs : Bytes) : List Bytes :=
  match bs with
  | [] => []
  | b :: rest => (b :: rest.take n) :: pieces n (rest.drop n)
termination_by bs.length
decreasing_by simp only [List.length_drop, List.length_cons]; omega

theorem length_ofNatLE (width n : Nat) : (ofNatLE width n).length = width := by
  induction width generalizing n with
  | zero => rfl
  | succ width ih => simp [ofNatLE, ih]

theorem length_ofNatBE (width n : Nat) : (ofNatBE width n).length = width := by
  simp [ofNatBE, length_ofNatLE]

theorem splitAt?_eq_some_iff {n : Nat} {bs front rest : Bytes} :
    splitAt? n bs = some (front, rest) ↔ bs = front ++ rest ∧ front.length = n := by
  constructor
  · intro h
    simp only [splitAt?] at h
    split at h
    · rename_i hn
      cases h
      exact ⟨(List.take_append_drop n bs).symm, hn⟩
    · cases h
  · rintro ⟨rfl, rfl⟩
    simp [splitAt?]

end Bytes

/-- The hexadecimal digits of a number, `0` for zero. -/
def hexOfNat (n : Nat) : String :=
  String.ofList (Nat.toDigits 16 n)

/-- Two hexadecimal digits. -/
def hexOfByte (b : UInt8) : String :=
  String.ofList [Nat.digitChar (b.toNat / 16), Nat.digitChar (b.toNat % 16)]

/-- The hexadecimal digits of a byte string, two for each byte. -/
def hexOfBytes (bs : Bytes) : String :=
  String.join (bs.map hexOfByte)

end CoinScript
