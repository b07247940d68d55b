import CoinScript.Digest.Ripemd160
import CoinScript.Digest.Sha1
import CoinScript.Digest.Sha256

/-!
# The digests of scripts

Besides the three plain hash functions, scripts use two compositions: SHA-256
twice, for checksums and signature hashes, and RIPEMD-160 of SHA-256, for the
twenty bytes by which an output commits to a public key or to a script.
-/

namespace CoinScript.Digest

/-- The hash functions that a script can apply. -/
inductive HashFunction where
  | ripemd160
  | sha1
  | sha256
  | hash160
  | hash256
deriving DecidableEq, Repr

def hash256 (message : Bytes) : Bytes :=
  Sha256.digest (Sha256.digest message)

def hash160 (message : Bytes) : Bytes :=
  Ripemd160.digest (Sha256.digest message)

def HashFunction.digest : HashFunction → Bytes → Bytes
  | ripemd160 => Ripemd160.digest
  | sha1 => Sha1.digest
  | sha256 => Sha256.digest
  | hash160 => Digest.hash160
  | hash256 => Digest.hash256

theorem length_hash160 (message : Bytes) : (hash160 message).length = 20 :=
  Ripemd160.length_digest _

/-- No digest is longer than thirty-two bytes. -/
theorem HashFunction.length_digest_le (f : HashFunction) (message : Bytes) :
    (f.digest message).length ≤ 32 := by
  cases f <;>
    simp [HashFunction.digest, Digest.hash160, Digest.hash256, Ripemd160.length_digest,
      Sha1.length_digest, Sha256.length_digest]

end CoinScript.Digest
