import CoinScript.Ecdsa.Nonce
import CoinScript.Ecdsa.Verification

/-!
# Private keys and signing

A private key is a secret below the order together with its public point. To
sign, nonces are drawn until one gives a signature of which neither number is
zero. Signing yields nothing only if the source of nonces dries up.
-/

namespace CoinScript

inductive KeyError where
  | secretOutOfRange
  | curve (e : CurveError)
deriving DecidableEq, Repr

def KeyError.message : KeyError → String
  | secretOutOfRange => "Invalid private key: secret must be in [1, n-1]"
  | curve e => e.message

structure PrivateKey where
  secret : Nat
  publicPoint : Point
  secret_pos : 0 < secret
  secret_lt : secret < Secp256k1.order
  publicPoint_eq : Secp256k1.publicPoint secret = .ok publicPoint

namespace PrivateKey

def ofSecret (secret : Nat) : Except (Fault KeyError) PrivateKey :=
  if inside : 0 < secret ∧ secret < Secp256k1.order then
    match derived : Secp256k1.publicPoint secret with
    | .ok p => .ok ⟨secret, p, inside.1, inside.2, derived⟩
    | .error (.error e) => .error (.error (.curve e))
    | .error (.misuse m) => .error (.misuse m)
  else .error (.error .secretOutOfRange)

/-- The encoded public point. -/
def sec (key : PrivateKey) (compressed : Bool) : Except SecError Bytes :=
  Sec.encode key.publicPoint compressed

/-- The key without its secret. -/
def describe (key : PrivateKey) : String :=
  "PrivateKey \x7b public_point: " ++ key.publicPoint.describe ++ ", .. \x7d"

/-- The signature that one nonce gives, if neither of its numbers is zero. -/
def signWith (key : PrivateKey) (z k : Nat) : Except (Fault CurveError) (Option Signature) := do
  let p ← Secp256k1.scalarMul Secp256k1.generator k
  let r := match p with
    | .affine x _ _ => x.num % Secp256k1.order
    | .infinity _ => 0
  let s := (z + r * key.secret) * inverseModOrder k % Secp256k1.order
  return if r = 0 ∨ s = 0 then none else some ⟨r, s⟩

/-- Tries at most `draws` nonces of the source. -/
def signFrom (key : PrivateKey) (z : Nat) :
    (draws : Nat) → NonceSource → Except (Fault CurveError) (Option Signature)
  | 0, _ => .ok none
  | draws + 1, source =>
    match source.next? with
    | none => .ok none
    | some (k, source) => do
      match ← key.signWith z k with
      | some sig => return some sig
      | none => key.signFrom z draws source

def sign (key : PrivateKey) (source : NonceSource) (z : Nat) :
    Except (Fault CurveError) (Option Signature) :=
  key.signFrom z maxDraws source

end PrivateKey

end CoinScript
