import CoinScript.Curve.Secp256k1

/-!
# Signatures and their verification

A signature is a pair of numbers. Their range is not part of the type:
decoding accepts any pair, and verification refuses one out of range.

A signature `(r, s)` on a number `z` is checked against a public point `p` by
the combination `u g + v p` of the generator and the point, with `u = z / s`
and `v = r / s` modulo the order: its first coordinate has to be `r` modulo
the order. The public point may be any value of the type. If the arithmetic
stops on it, the verdict carries the reason.
-/

namespace CoinScript

structure Signature where
  r : Nat
  s : Nat
deriving DecidableEq, Repr

def Signature.text (sig : Signature) : String :=
  s!"Signature({hexOfNat sig.r}, {hexOfNat sig.s})"

inductive Verdict where
  | accepted
  | refused
  | badKey (e : CurveError)
deriving DecidableEq, Repr

def Verdict.isAccepted : Verdict → Bool
  | accepted => true
  | _ => false

/-- Both numbers lie strictly between zero and the order. -/
def Signature.InRange (sig : Signature) : Prop :=
  (0 < sig.r ∧ sig.r < Secp256k1.order) ∧ 0 < sig.s ∧ sig.s < Secp256k1.order

instance (sig : Signature) : Decidable sig.InRange :=
  inferInstanceAs (Decidable (_ ∧ _))

/-- The inverse modulo the order of a number that is not a multiple of it. -/
def inverseModOrder (k : Nat) : Nat :=
  powMod k (Secp256k1.order - 2) Secp256k1.order

/-- The combination `u g + v p`. -/
def combination (p : Point) (u v : Nat) : Except (Fault CurveError) Point := do
  let ug ← Secp256k1.scalarMul Secp256k1.generator u
  let vp ← Secp256k1.scalarMul p v
  ug.add vp

def Point.verify (p : Point) (sig : Signature) (z : Nat) : Except Misuse Verdict :=
  if sig.InRange ∧ p.isInfinity = false then
    let w := inverseModOrder sig.s
    match combination p (z * w % Secp256k1.order) (sig.r * w % Secp256k1.order) with
    | .ok (.affine x _ _) =>
      .ok (if x.num % Secp256k1.order = sig.r then .accepted else .refused)
    | .ok (.infinity _) => .ok .refused
    | .error (.error e) => .ok (.badKey e)
    | .error (.misuse m) => .error m
  else .ok .refused

end CoinScript
