import CoinScript.Bytes

/-!
# Blocks of hash functions and keyed digests

The three hash functions of this library share one frame: the message is
padded to a whole number of 64-byte blocks, every block is read as sixteen
32-bit words, and a compression function folds the blocks into a state. They
differ in byte order, in the initial state and in the compression function.

A keyed digest works on blocks as well, over any digest: the key fills one
block, and two digests mask it with different bytes, the inner one over the
message and the outer one over the inner digest.
-/

namespace CoinScript.Digest

abbrev Word := UInt32

/-- The order in which the four bytes of a word are read and written. -/
inductive ByteOrder where
  | bigEndian
  | littleEndian
deriving DecidableEq, Repr

namespace ByteOrder

def word : ByteOrder → Bytes → Word
  | bigEndian, bs => (Bytes.toNatBE bs).toUInt32
  | littleEndian, bs => (Bytes.toNatLE bs).toUInt32

def wordBytes : ByteOrder → Word → Bytes
  | bigEndian, w => Bytes.ofNatBE 4 w.toNat
  | littleEndian, w => Bytes.ofNatLE 4 w.toNat

/-- The bit length of a message, in the eight bytes that end its padding. -/
def lengthBytes : ByteOrder → Nat → Bytes
  | bigEndian, n => Bytes.ofNatBE 8 n
  | littleEndian, n => Bytes.ofNatLE 8 n

theorem length_wordBytes (order : ByteOrder) (w : Word) : (order.wordBytes w).length = 4 := by
  cases order
  · exact Bytes.length_ofNatBE 4 _
  · exact Bytes.length_ofNatLE 4 _

end ByteOrder

/-- The message, a byte `80`, as few zeros as possible, and the bit length of
the message, so that the whole is a multiple of 64 bytes. -/
def pad (order : ByteOrder) (message : Bytes) : Bytes :=
  let zeros := (119 - message.length % 64) % 64
  message ++ 0x80 :: List.replicate zeros 0 ++ order.lengthBytes (8 * message.length)

/-- The padded message as blocks of sixteen words. -/
def blocks (order : ByteOrder) (message : Bytes) : List (List Word) :=
  (Bytes.pieces 63 (pad order message)).map fun block => (Bytes.pieces 3 block).map order.word

def rotateLeft (w : Word) (n : Word) : Word :=
  w <<< n ||| w >>> (32 - n)

def rotateRight (w : Word) (n : Word) : Word :=
  w >>> n ||| w <<< (32 - n)

/-! ## Keyed digests -/

/-- The key as one block: digested first if it is too long, then filled with zeros. -/
def keyBlock (digest : Bytes → Bytes) (blockSize : Nat) (key : Bytes) : Bytes :=
  let short := if blockSize < key.length then digest key else key
  short ++ List.replicate (blockSize - short.length) 0

def hmac (digest : Bytes → Bytes) (blockSize : Nat) (key message : Bytes) : Bytes :=
  let block := keyBlock digest blockSize key
  digest (block.map (· ^^^ 0x5c) ++ digest (block.map (· ^^^ 0x36) ++ message))

end CoinScript.Digest
