import CoinScript.Proofs.Script.KeyHash
import Mathlib.Data.Nat.ModEq

/-!
# The number that is signed

A number matters to signatures only modulo the order, although it is reduced at
three different places: verification reduces its product with an inverse, the
deterministic generator reduces the number itself, and signing reduces it only
at the end, in the second number of the signature. The machine hands the number
to verification alone, so that scripts cannot tell two numbers apart on which
every signature verifies alike. The points are those of the type, with any
coordinates, next to a curve whose coefficients belong to one field.
-/

namespace CoinScript

open Secp256k1 (order)
open Script (payToKeyHash)

variable {z z' : Nat}

/-! ## Verifying and signing -/

section Residue

variable (same : z ≡ z' [MOD order])

include same

theorem Point.verify_congr (p : Point) (sig : Signature) : p.verify sig z = p.verify sig z' := by
  have factor : z * inverseModOrder sig.s % order = z' * inverseModOrder sig.s % order :=
    same.mul_right _
  unfold verify
  dsimp only
  rw [factor]

theorem NonceSource.ofPolicy_congr (policy : NoncePolicy) (random : List Bytes) (secret : Nat) :
    ofPolicy policy random secret z = ofPolicy policy random secret z' := by
  have residue : z % order = z' % order := same
  cases policy with
  | random => rfl
  | deterministic =>
    unfold ofPolicy NonceGenerator.ofSecret
    dsimp only
    rw [residue]

theorem PrivateKey.signWith_congr (key : PrivateKey) (k : Nat) :
    key.signWith z k = key.signWith z' k := by
  have numerator (r : Nat) : (z + r * key.secret) * inverseModOrder k % order =
      (z' + r * key.secret) * inverseModOrder k % order :=
    (same.add_right _).mul_right _
  unfold signWith
  simp only [numerator]

/-- With the same nonces, the same ones of them are discarded. -/
theorem PrivateKey.signFrom_congr (key : PrivateKey) (draws : Nat) (source : NonceSource) :
    key.signFrom z draws source = key.signFrom z' draws source := by
  induction draws generalizing source with
  | zero => rfl
  | succ draws ih =>
    rw [signFrom, signFrom]
    cases source.next? with
    | none => rfl
    | some next =>
      obtain ⟨k, rest⟩ := next
      dsimp only
      rw [signWith_congr same, ih rest]

end Residue

/-! ## Scripts -/

/-- What follows a computation matters only at its result. -/
theorem Traced.bind_congr {ε α β : Type} {t : Traced ε α} {f g : α → Traced ε β}
    (same : ∀ a, t.result = .ok a → f a = g a) : t >>= f = t >>= g := by
  change Traced.bind t f = Traced.bind t g
  unfold Traced.bind
  cases ended : t.result with
  | error e => rfl
  | ok a =>
    dsimp only
    rw [same a ended]

section SameVerdicts

variable (same : ∀ p sig, Point.verify p sig z = Point.verify p sig z')

include same

namespace SignatureCheck

theorem accepts_congr : accepts z = accepts z' := by
  funext p sig
  rw [accepts, accepts, same]

theorem single_congr (s : Stack) : single z s = single z' s := by
  unfold single
  rw [accepts_congr same]

theorem keysAfter?_congr (sig : Signature) (keys : List Point) :
    keysAfter? z sig keys = keysAfter? z' sig keys := by
  induction keys with
  | nil => rfl
  | cons p keys ih => rw [keysAfter?, keysAfter?, accepts_congr same, ih]

theorem matchInOrder_congr (sigs : List Signature) (keys : List Point) :
    matchInOrder z sigs keys = matchInOrder z' sigs keys := by
  induction sigs generalizing keys with
  | nil => rfl
  | cons sig sigs ih =>
    rw [matchInOrder, matchInOrder, keysAfter?_congr same]
    simp only [ih]

theorem multiple_congr (s : Stack) : multiple z s = multiple z' s := by
  unfold multiple
  simp only [matchInOrder_congr same]

end SignatureCheck

theorem SignatureInstruction.run_congr (i : SignatureInstruction) (s : Stack) :
    i.run z s = i.run z' s := by
  cases i with
  | single demand => rw [run, run, SignatureCheck.single_congr same]
  | multiple demand => rw [run, run, SignatureCheck.multiple_congr same]

/-- Of the instructions only the signature checks are given the number. -/
theorem Instruction.apply_congr (i : Instruction) (s : State) : i.apply z s = i.apply z' s := by
  cases i with
  | stack i => rfl
  | conditional negated => rfl
  | altStack i => rfl
  | signature i => rw [apply, apply, SignatureInstruction.run_congr same]

namespace State

variable (settings : ScriptSettings)

theorem step_congr (s : State) (c : Command) : s.step settings z c = s.step settings z' c := by
  cases c with
  | op code =>
    unfold step execute executeOp
    simp only [Instruction.apply_congr same]
  | push data => rfl

theorem run_congr (s : State) : s.run settings z = s.run settings z' := by
  induction s using induction_on_run settings z with
  | done s pending => rw [run_nil pending, run_nil pending]
  | fails s c rest e pending failed =>
    rw [run_cons pending, run_cons pending, ← step_congr same]
    refine Traced.bind_congr fun t stepped => ?_
    rw [failed] at stepped
    cases stepped
  | moves s c rest t pending stepped ih =>
    rw [run_cons pending, run_cons pending, ← step_congr same]
    refine Traced.bind_congr fun u stepped' => ?_
    rw [stepped] at stepped'
    cases stepped'
    exact ih

end State

theorem Script.evaluate_congr (settings : ScriptSettings) (script : Script) :
    script.evaluate settings z = script.evaluate settings z' := by
  rw [evaluate, evaluate, State.run_congr same]

end SameVerdicts

/-! ## Residues -/

/-- Two numbers that are congruent modulo the order cannot be told apart. Any point, on the curve
or not, gives the same verdict on a signature of either; any key draws the same nonces for both and
returns the same signature; and any script evaluates alike, with the same events. -/
theorem verify_sign_evaluate_congr {z z' : Nat} (same : z ≡ z' [MOD order]) :
    (∀ (p : Point) (sig : Signature), p.verify sig z = p.verify sig z') ∧
      (∀ (key : PrivateKey) (policy : NoncePolicy) (random : List Bytes),
        NonceSource.ofPolicy policy random key.secret z =
            NonceSource.ofPolicy policy random key.secret z' ∧
          (∀ k, key.signWith z k = key.signWith z' k) ∧
          ∀ draws, key.signFrom z draws (.ofPolicy policy random key.secret z) =
            key.signFrom z' draws (.ofPolicy policy random key.secret z')) ∧
      ∀ (settings : ScriptSettings) (script : Script),
        script.evaluate settings z = script.evaluate settings z' := by
  refine ⟨Point.verify_congr same, ?_, Script.evaluate_congr (Point.verify_congr same)⟩
  intro key policy random
  have source := NonceSource.ofPolicy_congr same policy random key.secret
  refine ⟨source, key.signWith_congr same, fun draws => ?_⟩
  rw [source]
  exact key.signFrom_congr same draws _

/-- One more than the order is signed and verified like one, and unlocks a payment like it. -/
theorem verify_sign_evaluate_congr_wrapped :
    1 + order ≡ 1 [MOD order] ∧
      ∃ key sec, PrivateKey.ofSecret 1 = .ok key ∧ key.sec true = .ok sec ∧
        NonceSource.ofPolicy .deterministic [] key.secret (1 + order) =
          NonceSource.ofPolicy .deterministic [] key.secret 1 ∧
        key.signFrom (1 + order) 1 (.ofPolicy .random [Bytes.ofNatBE 32 1] key.secret (1 + order)) =
          .ok (some ⟨Secp256k1.generatorX, Secp256k1.generatorX + 1⟩) ∧
        key.publicPoint.verify ⟨Secp256k1.generatorX, Secp256k1.generatorX + 1⟩ (1 + order) =
          .ok .accepted ∧
        (Script.evaluate {} (1 + order)
          ([.push (Der.encode ⟨Secp256k1.generatorX, Secp256k1.generatorX + 1⟩ ++ [0x01]),
            .push sec] ++ payToKeyHash (Digest.hash160 sec))).result = .ok true := by
  have wrapped : 1 + order ≡ 1 [MOD order] := by decide
  obtain ⟨verifying, signing, evaluating⟩ := verify_sign_evaluate_congr wrapped
  obtain ⟨key, made, one, -⟩ := @PrivateKey.exists_ofSecret 1 (by decide) (by decide)
  obtain ⟨sec, encoded⟩ := key.exists_sec true
  have range := PrivateKey.inRange_of_signWith (PrivateKey.signWith_one one)
  have verified := PrivateKey.verify_of_signWith (PrivateKey.signWith_one one)
  refine ⟨wrapped, key, sec, made, encoded, (signing key .deterministic []).1, ?_, ?_, ?_⟩
  · rw [(signing key .random [Bytes.ofNatBE 32 1]).2.2 1]
    exact PrivateKey.signFrom_one one
  · rw [verifying]
    exact verified
  · rw [evaluating]
    exact Script.evaluate_of_verifies (by decide) (by decide)
      (Sec.decode_of_encode key.publicPoint_isOn encoded) (List.concat_ne_nil _ _)
      (by rw [List.dropLast_concat]; exact Der.decode_encode_of_inRange range) verified

end CoinScript
