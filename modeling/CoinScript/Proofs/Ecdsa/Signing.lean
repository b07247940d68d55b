import CoinScript.Ecdsa.PrivateKey
import CoinScript.Proofs.Ecdsa.Verification
import CoinScript.Proofs.Encoding.Der
import CoinScript.Proofs.Encoding.Sec
import CoinScript.Script.Spend

/-!
# A signature verifies

Whatever nonces a source yields, a signature that signing returns is in range
and is accepted against the public point of the key, also after key and
signature have gone through their encodings. Signing computes `s` so that the
multiple of the generator that verification looks at is the one by the nonce.
-/

namespace CoinScript

open Secp256k1 (order multiple HasAbscissa)

namespace PrivateKey

theorem publicPoint_eq_multiple (key : PrivateKey) :
    key.publicPoint = .ofGroup (multiple key.secret) := by
  have derived := key.publicPoint_eq
  rw [Secp256k1.publicPoint_eq, Except.ok.injEq] at derived
  exact derived.symm

theorem secret_ne_zero (key : PrivateKey) : (key.secret : ZMod order) ≠ 0 :=
  Secp256k1.cast_ne_zero key.secret_pos key.secret_lt

/-- Every secret in range has a key. -/
theorem exists_ofSecret {secret : Nat} (positive : 0 < secret) (below : secret < order) :
    ∃ key, ofSecret secret = .ok key ∧ key.secret = secret ∧
      Secp256k1.publicPoint secret = .ok key.publicPoint := by
  unfold ofSecret
  rw [dif_pos ⟨positive, below⟩]
  split
  · rename_i p derived
    exact ⟨_, rfl, rfl, derived⟩
  · rename_i e derived
    rw [Secp256k1.publicPoint_eq] at derived
    cases derived
  · rename_i m derived
    rw [Secp256k1.publicPoint_eq] at derived
    cases derived

/-- The numbers of a signature that one nonce gives. -/
theorem eq_of_signWith {key : PrivateKey} {z k : Nat} {sig : Signature}
    (signed : key.signWith z k = .ok (some sig)) :
    HasAbscissa (multiple k) sig.r ∧
      sig.s = (z + sig.r * key.secret) * inverseModOrder k % order ∧ sig.r ≠ 0 ∧ sig.s ≠ 0 := by
  rw [signWith, Secp256k1.scalarMul_generator, ok_bind, ← Secp256k1.multiple_natCast] at signed
  cases chosen : multiple (k : ZMod order) with
  | zero =>
    rw [chosen] at signed
    cases signed
  | some x y h =>
    rw [chosen] at signed
    dsimp only [Point.ofGroup, pure, Except.pure] at signed
    split at signed
    · cases signed
    · rename_i nonzero
      cases signed
      exact ⟨⟨x, y, h, rfl, rfl⟩, rfl, fun r_zero => nonzero (Or.inl r_zero),
        fun s_zero => nonzero (Or.inr s_zero)⟩

theorem inRange_of_signWith {key : PrivateKey} {z k : Nat} {sig : Signature}
    (signed : key.signWith z k = .ok (some sig)) : sig.InRange := by
  obtain ⟨⟨x, y, h, -, r_eq⟩, s_eq, r_ne_zero, s_ne_zero⟩ := eq_of_signWith signed
  have positive : 0 < order := by decide
  refine ⟨⟨Nat.pos_of_ne_zero r_ne_zero, ?_⟩, Nat.pos_of_ne_zero s_ne_zero, ?_⟩
  · rw [← r_eq]
    exact Nat.mod_lt _ positive
  · rw [s_eq]
    exact Nat.mod_lt _ positive

theorem verify_of_signWith {key : PrivateKey} {z k : Nat} {sig : Signature}
    (signed : key.signWith z k = .ok (some sig)) :
    key.publicPoint.verify sig z = .ok .accepted := by
  have range := inRange_of_signWith signed
  obtain ⟨abscissa, s_eq, -, -⟩ := eq_of_signWith signed
  rw [publicPoint_eq_multiple, (Point.verify_multiple key.secret_ne_zero sig z).1]
  have quotient : (sig.s : ZMod order) = (z + sig.r * key.secret) / k := by
    rw [s_eq, ZMod.natCast_mod]
    push_cast
    rw [inverseModOrder_eq, div_eq_mul_inv]
  have s_ne_zero := Secp256k1.cast_ne_zero range.2.1 range.2.2
  rw [quotient] at s_ne_zero
  obtain ⟨top, bottom⟩ := div_ne_zero_iff.mp s_ne_zero
  -- The factor that verification looks at is the nonce.
  rw [quotient, div_div_cancel₀ top]
  exact ⟨range, abscissa⟩

/-- With the secret one and the nonce one the signature is read off the generator. -/
theorem signWith_one {key : PrivateKey} (one : key.secret = 1) :
    key.signWith 1 1 = .ok (some ⟨Secp256k1.generatorX, Secp256k1.generatorX + 1⟩) := by
  rw [signWith, one]
  decide +kernel

/-- A source is asked for nonces until one gives a signature. -/
theorem exists_nonce_of_signFrom {key : PrivateKey} {z draws : Nat} {source : NonceSource}
    {sig : Signature} (signed : key.signFrom z draws source = .ok (some sig)) :
    ∃ k, key.signWith z k = .ok (some sig) := by
  induction draws generalizing source with
  | zero => cases signed
  | succ draws ih =>
    rw [signFrom] at signed
    split at signed
    · cases signed
    · rename_i k rest next
      obtain ⟨attempt, first, signed⟩ := bind_eq_ok_iff.mp signed
      cases attempt with
      | none => exact ih signed
      | some found =>
        cases signed
        exact ⟨k, first⟩

end PrivateKey

/-- Every sequence of nonces is that of some source: the blocks may spell them out. -/
theorem NonceSource.next?_blocks {k : Nat} (nonce : IsNonce k) (rest : List Bytes) :
    (blocks (Bytes.ofNatBE 32 k :: rest)).next? = some (k, blocks rest) := by
  have wide : k < 256 ^ 32 := nonce.2.trans (by decide)
  rw [next?, firstNonce?, Bytes.toNatBE_ofNatBE_of_lt wide]
  dsimp only
  rw [if_pos nonce]
  rfl

theorem PrivateKey.signFrom_one {key : PrivateKey} (one : key.secret = 1) :
    key.signFrom 1 1 (.blocks [Bytes.ofNatBE 32 1]) =
      .ok (some ⟨Secp256k1.generatorX, Secp256k1.generatorX + 1⟩) := by
  rw [signFrom, NonceSource.next?_blocks (by decide)]
  dsimp only
  rw [signWith_one one]
  rfl

theorem Der.decode_encode_of_inRange {sig : Signature} (range : sig.InRange) :
    decode (encode sig) = .ok sig := by
  have order_lt : order < 2 ^ 256 := by decide
  exact decode_encode (length_body_le (range.1.2.trans order_lt) (range.2.2.trans order_lt))

/-- Through the encodings of key and signature, verification is that of the point. -/
theorem verifyEncoded_encode {p : Point} (on : p.IsOn Secp256k1.curve) {compressed : Bool}
    {sec : Bytes} (encoded : Sec.encode p compressed = .ok sec) {sig : Signature}
    (range : sig.InRange) {z : Nat} {verdict : Verdict} (verified : p.verify sig z = .ok verdict) :
    (verifyEncoded sec (Der.encode sig) z).result = .ok verdict.isAccepted := by
  rw [verifyEncoded, Sec.decode_of_encode on encoded, Der.decode_encode_of_inRange range]
  refine Traced.result_bind_eq_ok_iff.mpr ⟨p, rfl, Traced.result_bind_eq_ok_iff.mpr ⟨sig, rfl, ?_⟩⟩
  rw [verified]

namespace PrivateKey

theorem exists_sec (key : PrivateKey) (compressed : Bool) : ∃ sec, key.sec compressed = .ok sec := by
  rw [sec, publicPoint_eq_multiple]
  cases same : multiple (key.secret : ZMod order) with
  | zero => exact absurd (Secp256k1.multiple_eq_zero_iff.mp same) key.secret_ne_zero
  | some x y h =>
    cases compressed with
    | true => exact ⟨_, Sec.encode_compressed _ _ _⟩
    | false => exact ⟨_, Sec.encode_full _ _ _⟩

theorem publicPoint_isOn (key : PrivateKey) : key.publicPoint.IsOn Secp256k1.curve := by
  rw [publicPoint_eq_multiple]
  exact Secp256k1.isOn_ofGroup _

/-- Every secret in range has a key, and each signature that the key gives, from any source of
nonces and after any number of draws, is in range and accepted: by the public point, and by its
two encodings together with that of the signature. -/
theorem signFrom_verifies {secret : Nat} (positive : 0 < secret) (below : secret < order) :
    ∃ key, ofSecret secret = .ok key ∧ key.secret = secret ∧
      Secp256k1.publicPoint secret = .ok key.publicPoint ∧
      ∀ (z draws : Nat) (source : NonceSource) (sig : Signature),
        key.signFrom z draws source = .ok (some sig) →
          (1 ≤ sig.r ∧ sig.r < order) ∧ (1 ≤ sig.s ∧ sig.s < order) ∧
          key.publicPoint.verify sig z = .ok .accepted ∧
          ∀ compressed, ∃ sec, key.sec compressed = .ok sec ∧
            (verifyEncoded sec (Der.encode sig) z).result = .ok true := by
  obtain ⟨key, made, same, derived⟩ := exists_ofSecret positive below
  refine ⟨key, made, same, derived, ?_⟩
  intro z draws source sig signed
  obtain ⟨k, attempt⟩ := exists_nonce_of_signFrom signed
  have range := inRange_of_signWith attempt
  have verified := verify_of_signWith attempt
  refine ⟨range.1, range.2, verified, fun compressed => ?_⟩
  obtain ⟨sec, encoded⟩ := key.exists_sec compressed
  exact ⟨sec, encoded, verifyEncoded_encode key.publicPoint_isOn encoded range verified⟩

/-- The secret one signs the number one with the nonce one. -/
theorem signFrom_verifies_one :
    ∃ key, ofSecret 1 = .ok key ∧
      key.signFrom 1 1 (.blocks [Bytes.ofNatBE 32 1]) =
        .ok (some ⟨Secp256k1.generatorX, Secp256k1.generatorX + 1⟩) ∧
      key.publicPoint.verify ⟨Secp256k1.generatorX, Secp256k1.generatorX + 1⟩ 1 = .ok .accepted ∧
      ∃ sec, key.sec true = .ok sec ∧
        (verifyEncoded sec
          (Der.encode ⟨Secp256k1.generatorX, Secp256k1.generatorX + 1⟩) 1).result = .ok true := by
  obtain ⟨key, made, same, -, verifies⟩ := @signFrom_verifies 1 (by decide) (by decide)
  have signed := signFrom_one same
  obtain ⟨-, -, verified, encoded⟩ := verifies 1 1 _ _ signed
  exact ⟨key, made, signed, verified, encoded true⟩

end PrivateKey

end CoinScript
