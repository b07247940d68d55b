import CoinScript.Curve.Secp256k1
import CoinScript.Digest.Sha256
import CoinScript.Encoding.Sec

/-!
# Nonces

A nonce is a number in the range from one to the order less one. Nonces come
from a source that can be asked again: either from given random blocks, of
which those out of range are skipped, or from the deterministic generator of
RFC 6979, which derives them from the secret and the number to be signed. The
generator is written over an arbitrary keyed digest.

Nothing bounds the number of blocks out of range that the generator may meet
before a nonce. The search stops after `maxDraws` of them without a nonce.
-/

namespace CoinScript

/-- How signing chooses its nonces. -/
inductive NoncePolicy where
  | random
  | deterministic
deriving DecidableEq, Repr

/-- A nonce lies strictly between zero and the order. -/
def IsNonce (k : Nat) : Prop := 0 < k ∧ k < Secp256k1.order

instance (k : Nat) : Decidable (IsNonce k) := inferInstanceAs (Decidable (_ ∧ _))

def maxDraws : Nat := 1000

/-- The state of the deterministic generator. The first block is drawn from the state as
it stands, every later one after an update. -/
structure NonceGenerator where
  key : Bytes
  value : Bytes
  started : Bool
deriving DecidableEq, Repr

namespace NonceGenerator

def ofSecret (mac : Bytes → Bytes → Bytes) (secret z : Nat) : NonceGenerator :=
  let seed := Sec.coordinateBytes secret ++ Sec.coordinateBytes (z % Secp256k1.order)
  let key₀ := List.replicate 32 0x00
  let value₀ := List.replicate 32 0x01
  let key₁ := mac key₀ (value₀ ++ 0x00 :: seed)
  let value₁ := mac key₁ value₀
  let key₂ := mac key₁ (value₁ ++ 0x01 :: seed)
  ⟨key₂, mac key₂ value₁, false⟩

def update (mac : Bytes → Bytes → Bytes) (g : NonceGenerator) : NonceGenerator :=
  if g.started then
    let key := mac g.key (g.value ++ [0x00])
    ⟨key, mac key g.value, true⟩
  else { g with started := true }

/-- Draws the next block, in range or not. -/
def draw (mac : Bytes → Bytes → Bytes) (g : NonceGenerator) : NonceGenerator :=
  let g := g.update mac
  { g with value := mac g.key g.value }

/-- Draws blocks until one is a nonce, at most `draws` of them. -/
def next? (mac : Bytes → Bytes → Bytes) : (draws : Nat) → NonceGenerator → Option (Nat × NonceGenerator)
  | 0, _ => none
  | draws + 1, g =>
    let g := g.draw mac
    let k := Bytes.toNatBE g.value
    if IsNonce k then some (k, g) else next? mac draws g

end NonceGenerator

/-- Where the nonces of one signing operation come from. -/
inductive NonceSource where
  | blocks (random : List Bytes)
  | generator (g : NonceGenerator)
deriving DecidableEq, Repr

namespace NonceSource

/-- The first nonce among random blocks, and the blocks after it. -/
def firstNonce? : List Bytes → Option (Nat × List Bytes)
  | [] => none
  | block :: rest =>
    let k := Bytes.toNatBE block
    if IsNonce k then some (k, rest) else firstNonce? rest

def hmacSha256 : Bytes → Bytes → Bytes :=
  Digest.hmac Digest.Sha256.digest 64

/-- The source that a policy prescribes. -/
def ofPolicy (policy : NoncePolicy) (random : List Bytes) (secret z : Nat) : NonceSource :=
  match policy with
  | .random => blocks random
  | .deterministic => generator (.ofSecret hmacSha256 secret z)

def next? : NonceSource → Option (Nat × NonceSource)
  | blocks random => (firstNonce? random).map fun (k, rest) => (k, blocks rest)
  | generator g => (g.next? hmacSha256 maxDraws).map fun (k, g) => (k, generator g)

end NonceSource

end CoinScript
