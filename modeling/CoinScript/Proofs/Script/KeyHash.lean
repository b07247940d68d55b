import CoinScript.Proofs.Ecdsa.Signing
import CoinScript.Proofs.Script.Locking

/-!
# Payments to a key hash

A run that ends in a payment to a key hash comes to all five commands of it,
whatever the unlocking script is. They succeed exactly on a key with the hash
and a signature below it that the key verifies. Conversely, the encodings of a
key and of a signature that it gives are such a pair, so that pushing them
unlocks the payment.
-/

namespace CoinScript

open Script (payToKeyHash)

theorem StackInstruction.run_equalVerify_iff {a b : Bytes} {below after : Stack} :
    equalVerify.run (a :: b :: below) = .ok after ↔ a = b ∧ after = below := by
  change (if Number.truthy (Number.ofBool (a == b)) then Except.ok below
    else Except.error FailureCode.verify) = .ok after ↔ _
  rw [Number.truthy_ofBool]
  by_cases same : a = b
  · rw [if_pos (beq_iff_eq.mpr same), and_iff_right same]
    exact ⟨fun h => (Except.ok.inj h).symm, fun h => congrArg Except.ok h.symm⟩
  · rw [if_neg (fun h => same (eq_of_beq h))]
    exact iff_of_false nofun fun h => same h.1

namespace SignatureCheck

variable {z : Nat} {key sig : Bytes} {below after : Stack}

theorem result_readKey_iff {p : Point} :
    (readKey key).result = .ok p ↔ Sec.decode key = .ok p := by
  unfold readKey
  cases Sec.decode key with
  | error e => exact iff_of_false nofun nofun
  | ok q => exact ⟨fun h => by cases h; rfl, fun h => by cases h; rfl⟩

theorem result_readSignature_iff {s : Signature} :
    (readSignature sig).result = .ok s ↔ sig ≠ [] ∧ Der.decode sig.dropLast = .ok s := by
  unfold readSignature
  by_cases empty : sig = []
  · rw [if_pos empty]
    exact iff_of_false nofun fun h => h.1 empty
  · rw [if_neg empty, and_iff_right empty]
    cases Der.decode sig.dropLast with
    | error e => exact iff_of_false nofun nofun
    | ok q => exact ⟨fun h => by cases h; rfl, fun h => by cases h; rfl⟩

theorem result_accepts_iff {p : Point} {s : Signature} {b : Bool} :
    (accepts z p s).result = .ok b ↔ ∃ verdict, p.verify s z = .ok verdict ∧ verdict.isAccepted = b := by
  unfold accepts
  cases p.verify s z with
  | error m => exact iff_of_false nofun fun ⟨_, h, _⟩ => nomatch h
  | ok verdict =>
    refine ⟨fun h => ⟨verdict, rfl, Except.ok.inj h⟩, ?_⟩
    rintro ⟨_, same, rfl⟩
    cases same
    rfl

/-- A single check decodes both items and leaves whether the key verifies the signature. -/
theorem result_single_iff : (single z (key :: sig :: below)).result = .ok after ↔
    ∃ p s verdict, Sec.decode key = .ok p ∧ (sig ≠ [] ∧ Der.decode sig.dropLast = .ok s) ∧
      p.verify s z = .ok verdict ∧ after = Number.ofBool verdict.isAccepted :: below := by
  simp only [single, Traced.result_bind_eq_ok_iff, result_readKey_iff, result_readSignature_iff,
    result_accepts_iff]
  constructor
  · rintro ⟨p, decoded, s, read, b, ⟨verdict, verified, rfl⟩, made⟩
    exact ⟨p, s, verdict, decoded, read, verified, (Except.ok.inj made).symm⟩
  · rintro ⟨p, s, verdict, decoded, read, verified, rfl⟩
    exact ⟨p, decoded, s, read, _, ⟨verdict, verified, rfl⟩, rfl⟩

end SignatureCheck

namespace State

variable {settings : ScriptSettings} {z : Nat} {s t : State} {hash : Bytes}

theorem payToKeyHash_plain (hash : Bytes) : ∀ c ∈ payToKeyHash hash, c.bracket? = none := by
  simp only [payToKeyHash, List.forall_mem_cons, Command.bracket?_push]
  decide

/-- The five commands ask for a key with the hash and a signature that it verifies. -/
theorem verifies_of_payToKeyHash (pending : s.pending = payToKeyHash hash)
    (ran : (s.run settings z).result = .ok t) (succeeds : t.succeeds = true) :
    ∃ key sig p signature, Digest.hash160 key = hash ∧ Sec.decode key = .ok p ∧ sig ≠ [] ∧
      Der.decode sig.dropLast = .ok signature ∧ p.verify signature z = .ok .accepted := by
  obtain ⟨_, stack, alt, n⟩ := s
  cases pending
  obtain ⟨-, _, doubled, -, ran⟩ := (result_run_stack_iff (i := .dup) rfl).mp ran
  rcases stack with _ | ⟨key, below⟩
  · cases doubled
  cases doubled
  obtain ⟨-, _, hashed, -, ran⟩ := (result_run_stack_iff (i := .hash .hash160) rfl).mp ran
  cases hashed
  obtain ⟨-, ran⟩ := (result_run_push_iff rfl).mp ran
  obtain ⟨-, _, compared, -, ran⟩ := (result_run_stack_iff (i := .equalVerify) rfl).mp ran
  obtain ⟨same, rfl⟩ := StackInstruction.run_equalVerify_iff.mp compared
  obtain ⟨-, _, checked, -, ran⟩ := (result_run_signature_iff (i := .single false) rfl).mp ran
  obtain ⟨_, checked, made⟩ := Traced.result_bind_eq_ok_iff.mp checked
  cases made
  rcases below with _ | ⟨sig, below⟩
  · cases checked
  obtain ⟨p, signature, verdict, decoded, ⟨nonempty, read⟩, verified, rfl⟩ :=
    SignatureCheck.result_single_iff.mp checked
  rw [result_run_nil rfl] at ran
  cases ran
  rw [succeeds_ofBool] at succeeds
  have accepted : verdict = .accepted := by
    cases verdict with
    | accepted => rfl
    | refused => cases succeeds
    | badKey e => cases succeeds
  rw [accepted] at verified
  exact ⟨key, sig, p, signature, same.symm, decoded, nonempty, read, verified⟩

end State

open State

namespace Script

theorem verifies_of_evaluate {settings : ScriptSettings} {z : Nat} {unlocking : Script}
    {hash : Bytes} (success : (evaluate settings z (unlocking ++ payToKeyHash hash)).result = .ok true) :
    ∃ key sig p signature, Digest.hash160 key = hash ∧ Sec.decode key = .ok p ∧ sig ≠ [] ∧
      Der.decode sig.dropLast = .ok signature ∧ p.verify signature z = .ok .accepted := by
  obtain ⟨t, ran, succeeds⟩ := result_evaluate_iff.mp success
  obtain ⟨path, done⟩ := result_run_iff.mp ran
  obtain ⟨s, -, pending, after⟩ :=
    exists_suffix (payToKeyHash_plain hash) (by decide : 3 < 5) path done rfl
  exact verifies_of_payToKeyHash pending (result_run_iff.mpr ⟨after, done⟩) succeeds

theorem evaluate_of_verifies {settings : ScriptSettings} (ops : 4 ≤ settings.maxOps)
    (size : 4 ≤ settings.maxStackSize) {z : Nat} {key sig : Bytes} {p : Point}
    {signature : Signature} (decoded : Sec.decode key = .ok p) (nonempty : sig ≠ [])
    (read : Der.decode sig.dropLast = .ok signature)
    (verified : p.verify signature z = .ok .accepted) :
    (evaluate settings z ([.push sig, .push key] ++ payToKeyHash (Digest.hash160 key))).result =
      .ok true := by
  refine result_evaluate_iff.mpr ⟨_, ?_, succeeds_ofBool true [] [] [] 4⟩
  refine (result_run_push_iff rfl).mpr ⟨Nat.le_trans (by simp) size, ?_⟩
  refine (result_run_push_iff rfl).mpr ⟨Nat.le_trans (by simp) size, ?_⟩
  refine (result_run_stack_iff (i := .dup) rfl).mpr
    ⟨fun _ => Nat.le_trans (by decide) ops, [key, key, sig], rfl, Nat.le_trans (by simp) size, ?_⟩
  refine (result_run_stack_iff (i := .hash .hash160) rfl).mpr
    ⟨fun _ => Nat.le_trans (by decide) ops, [Digest.hash160 key, key, sig], rfl,
      Nat.le_trans (by simp) size, ?_⟩
  refine (result_run_push_iff rfl).mpr ⟨Nat.le_trans (by simp) size, ?_⟩
  refine (result_run_stack_iff (i := .equalVerify) rfl).mpr
    ⟨fun _ => Nat.le_trans (by decide) ops, [key, sig],
      StackInstruction.run_equalVerify_iff.mpr ⟨rfl, rfl⟩, Nat.le_trans (by simp) size, ?_⟩
  have checked : (SignatureCheck.single z [key, sig]).result = .ok [Number.ofBool true] :=
    SignatureCheck.result_single_iff.mpr
      ⟨p, signature, .accepted, decoded, ⟨nonempty, read⟩, verified, rfl⟩
  exact (result_run_signature_iff (i := .single false) rfl).mpr
    ⟨fun _ => Nat.le_trans (by decide) ops, [Number.ofBool true],
      Traced.result_bind_eq_ok_iff.mpr ⟨_, checked, rfl⟩, Nat.le_trans (by simp) size,
      result_run_nil rfl⟩

/-- A payment to a key hash is unlocked only by a key with the hash that verifies a signature, and it is
unlocked by the encodings of any key with the hash and of any signature that the key gives. -/
theorem evaluate_payToKeyHash :
    (∀ (settings : ScriptSettings) (z : Nat) (unlocking : Script) (hash : Bytes),
      (evaluate settings z (unlocking ++ payToKeyHash hash)).result = .ok true →
        ∃ key sig p signature, Digest.hash160 key = hash ∧ Sec.decode key = .ok p ∧ sig ≠ [] ∧
          Der.decode sig.dropLast = .ok signature ∧ p.verify signature z = .ok .accepted) ∧
      ∀ secret : Nat, 0 < secret → secret < Secp256k1.order →
        ∃ key, PrivateKey.ofSecret secret = .ok key ∧
          ∀ compressed, ∃ sec, key.sec compressed = .ok sec ∧
            ∀ (z draws : Nat) (source : NonceSource) (sig : Signature),
              key.signFrom z draws source = .ok (some sig) →
                ∀ (hashType : UInt8) (settings : ScriptSettings),
                  4 ≤ settings.maxOps → 4 ≤ settings.maxStackSize →
                    (evaluate settings z
                      ([.push (Der.encode sig ++ [hashType]), .push sec] ++
                        payToKeyHash (Digest.hash160 sec))).result = .ok true := by
  refine ⟨fun _ _ _ _ success => verifies_of_evaluate success, fun secret positive below => ?_⟩
  obtain ⟨key, made, -, -⟩ := PrivateKey.exists_ofSecret positive below
  refine ⟨key, made, fun compressed => ?_⟩
  obtain ⟨sec, encoded⟩ := key.exists_sec compressed
  refine ⟨sec, encoded, fun z draws source sig signed hashType settings ops size => ?_⟩
  obtain ⟨k, attempt⟩ := PrivateKey.exists_nonce_of_signFrom signed
  have range := PrivateKey.inRange_of_signWith attempt
  have read : Der.decode (Der.encode sig ++ [hashType]).dropLast = .ok sig := by
    rw [List.dropLast_concat]
    exact Der.decode_encode_of_inRange range
  exact evaluate_of_verifies ops size (Sec.decode_of_encode key.publicPoint_isOn encoded)
    (List.concat_ne_nil hashType _) read (PrivateKey.verify_of_signWith attempt)

/-- The secret one unlocks a payment to its compressed key, and so the payment has been unlocked by
a key with that hash. -/
theorem evaluate_payToKeyHash_one :
    ∃ key sec, PrivateKey.ofSecret 1 = .ok key ∧ key.sec true = .ok sec ∧
      (evaluate {} 1
        ([.push (Der.encode ⟨Secp256k1.generatorX, Secp256k1.generatorX + 1⟩ ++ [0x01]),
          .push sec] ++ payToKeyHash (Digest.hash160 sec))).result = .ok true ∧
      ∃ found sig p signature, Digest.hash160 found = Digest.hash160 sec ∧
        Sec.decode found = .ok p ∧ sig ≠ [] ∧ Der.decode sig.dropLast = .ok signature ∧
        p.verify signature 1 = .ok .accepted := by
  obtain ⟨sound, complete⟩ := evaluate_payToKeyHash
  obtain ⟨key, made, unlocks⟩ := complete 1 (by decide) (by decide)
  obtain ⟨other, again, same, -⟩ := @PrivateKey.exists_ofSecret 1 (by decide) (by decide)
  have one : key.secret = 1 := by
    rw [made] at again
    cases again
    exact same
  obtain ⟨sec, encoded, unlocked⟩ := unlocks true
  have success := unlocked 1 1 _ _ (PrivateKey.signFrom_one one) 0x01 {} (by decide) (by decide)
  exact ⟨key, sec, made, encoded, success, sound {} 1 _ _ success⟩

end Script

end CoinScript
