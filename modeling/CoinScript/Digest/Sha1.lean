import CoinScript.Digest.Block

/-!
# SHA-1

The state is five words. A block is expanded to eighty words, and the rounds
run in four stages of twenty, each with a constant and a mixing function of
its own. The digest always has twenty bytes.
-/

namespace CoinScript.Digest.Sha1

structure State where
  a : Word
  b : Word
  c : Word
  d : Word
  e : Word
deriving DecidableEq, Repr

def initial : State :=
  ⟨0x67452301, 0xefcdab89, 0x98badcfe, 0x10325476, 0xc3d2e1f0⟩

/-- Appends `n` words to a schedule that is kept last word first. -/
def extend : Nat → List Word → List Word
  | 0, ws => ws
  | n + 1, ws =>
    let mixed := ws.getD 2 0 ^^^ ws.getD 7 0 ^^^ ws.getD 13 0 ^^^ ws.getD 15 0
    extend n (rotateLeft mixed 1 :: ws)

/-- The eighty words of a block. -/
def schedule (block : List Word) : List Word :=
  (extend 64 block.reverse).reverse

/-- The mixing function and the constant of one of the four stages. -/
def stage (n : Nat) (b c d : Word) : Word × Word :=
  match n with
  | 0 => ((b &&& c) ||| (~~~b &&& d), 0x5a827999)
  | 1 => (b ^^^ c ^^^ d, 0x6ed9eba1)
  | 2 => ((b &&& c) ||| (b &&& d) ||| (c &&& d), 0x8f1bbcdc)
  | _ => (b ^^^ c ^^^ d, 0xca62c1d6)

def round (s : State) (index : Nat) (w : Word) : State :=
  let (f, k) := stage (index / 20) s.b s.c s.d
  ⟨rotateLeft s.a 5 + f + s.e + k + w, s.a, rotateLeft s.b 30, s.c, s.d⟩

def rounds (s : State) (index : Nat) : List Word → State
  | [] => s
  | w :: ws => rounds (round s index w) (index + 1) ws

def compress (s : State) (block : List Word) : State :=
  let t := rounds s 0 (schedule block)
  ⟨s.a + t.a, s.b + t.b, s.c + t.c, s.d + t.d, s.e + t.e⟩

def State.words (s : State) : List Word :=
  [s.a, s.b, s.c, s.d, s.e]

def digest (message : Bytes) : Bytes :=
  ((blocks .bigEndian message).foldl compress initial).words.flatMap ByteOrder.bigEndian.wordBytes

theorem length_digest (message : Bytes) : (digest message).length = 20 := by
  simp [digest, State.words, ByteOrder.length_wordBytes]

end CoinScript.Digest.Sha1
