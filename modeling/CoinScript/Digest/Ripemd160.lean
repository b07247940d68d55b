import CoinScript.Digest.Block

/-!
# RIPEMD-160

Two lines of eighty steps run over the same block from the same state. The
lines differ in the order in which they take the words, in their rotations and
constants, and in the order of the five mixing functions; their results are
added crosswise. Words are little-endian. The digest always has twenty bytes.
-/

namespace CoinScript.Digest.Ripemd160

structure State where
  a : Word
  b : Word
  c : Word
  d : Word
  e : Word
deriving DecidableEq, Repr

def initial : State :=
  ⟨0x67452301, 0xefcdab89, 0x98badcfe, 0x10325476, 0xc3d2e1f0⟩

/-- One line of the compression: which word each step takes, by how much it
rotates, and the constant and mixing function of each group of sixteen steps. -/
structure Line where
  order : List Nat
  rotations : List Word
  constants : List Word
  mixers : List Nat

def leftLine : Line where
  order :=
    [0, 1, 2, 3, 4, 5, 6, 7, 8, 9, 10, 11, 12, 13, 14, 15,
     7, 4, 13, 1, 10, 6, 15, 3, 12, 0, 9, 5, 2, 14, 11, 8,
     3, 10, 14, 4, 9, 15, 8, 1, 2, 7, 0, 6, 13, 11, 5, 12,
     1, 9, 11, 10, 0, 8, 12, 4, 13, 3, 7, 15, 14, 5, 6, 2,
     4, 0, 5, 9, 7, 12, 2, 10, 14, 1, 3, 8, 11, 6, 15, 13]
  rotations :=
    [11, 14, 15, 12, 5, 8, 7, 9, 11, 13, 14, 15, 6, 7, 9, 8,
     7, 6, 8, 13, 11, 9, 7, 15, 7, 12, 15, 9, 11, 7, 13, 12,
     11, 13, 6, 7, 14, 9, 13, 15, 14, 8, 13, 6, 5, 12, 7, 5,
     11, 12, 14, 15, 14, 15, 9, 8, 9, 14, 5, 6, 8, 6, 5, 12,
     9, 15, 5, 11, 6, 8, 13, 12, 5, 12, 13, 14, 11, 8, 5, 6]
  constants := [0x00000000, 0x5a827999, 0x6ed9eba1, 0x8f1bbcdc, 0xa953fd4e]
  mixers := [0, 1, 2, 3, 4]

def rightLine : Line where
  order :=
    [5, 14, 7, 0, 9, 2, 11, 4, 13, 6, 15, 8, 1, 10, 3, 12,
     6, 11, 3, 7, 0, 13, 5, 10, 14, 15, 8, 12, 4, 9, 1, 2,
     15, 5, 1, 3, 7, 14, 6, 9, 11, 8, 12, 2, 10, 0, 4, 13,
     8, 6, 4, 1, 3, 11, 15, 0, 5, 12, 2, 13, 9, 7, 10, 14,
     12, 15, 10, 4, 1, 5, 8, 7, 6, 2, 13, 14, 0, 3, 9, 11]
  rotations :=
    [8, 9, 9, 11, 13, 15, 15, 5, 7, 7, 8, 11, 14, 14, 12, 6,
     9, 13, 15, 7, 12, 8, 9, 11, 7, 7, 12, 7, 6, 15, 13, 11,
     9, 7, 15, 11, 8, 6, 6, 14, 12, 13, 5, 14, 13, 13, 7, 5,
     15, 5, 8, 11, 14, 14, 6, 14, 6, 9, 12, 9, 12, 5, 15, 8,
     8, 5, 12, 9, 12, 5, 14, 6, 8, 13, 6, 5, 15, 13, 11, 11]
  constants := [0x50a28be6, 0x5c4dd124, 0x6d703ef3, 0x7a6d76e9, 0x00000000]
  mixers := [4, 3, 2, 1, 0]

/-- The five mixing functions. -/
def mix (n : Nat) (b c d : Word) : Word :=
  match n with
  | 0 => b ^^^ c ^^^ d
  | 1 => (b &&& c) ||| (~~~b &&& d)
  | 2 => (b ||| ~~~c) ^^^ d
  | 3 => (b &&& d) ||| (c &&& ~~~d)
  | _ => b ^^^ (c ||| ~~~d)

def step (line : Line) (s : State) (index : Nat) (w rotation : Word) : State :=
  let group := index / 16
  let f := mix (line.mixers.getD group 0) s.b s.c s.d
  let t := rotateLeft (s.a + f + w + line.constants.getD group 0) rotation + s.e
  ⟨s.e, t, s.b, rotateLeft s.c 10, s.d⟩

def steps (line : Line) (block : List Word) (s : State) (index : Nat) :
    List Nat → List Word → State
  | position :: order, rotation :: rotations =>
    steps line block (step line s index (block.getD position 0) rotation) (index + 1) order rotations
  | _, _ => s

def Line.run (line : Line) (s : State) (block : List Word) : State :=
  steps line block s 0 line.order line.rotations

def compress (s : State) (block : List Word) : State :=
  let l := leftLine.run s block
  let r := rightLine.run s block
  ⟨s.b + l.c + r.d, s.c + l.d + r.e, s.d + l.e + r.a, s.e + l.a + r.b, s.a + l.b + r.c⟩

def State.words (s : State) : List Word :=
  [s.a, s.b, s.c, s.d, s.e]

def digest (message : Bytes) : Bytes :=
  ((blocks .littleEndian message).foldl compress initial).words.flatMap ByteOrder.littleEndian.wordBytes

theorem length_digest (message : Bytes) : (digest message).length = 20 := by
  simp [digest, State.words, ByteOrder.length_wordBytes]

end CoinScript.Digest.Ripemd160
