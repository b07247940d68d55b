import CoinScript.Ecdsa.PrivateKey
import CoinScript.Proofs.Encoding.Digits
import CoinScript.Proofs.Sequencing
import Mathlib.Data.Nat.Count

/-!
# The order of the deterministic nonces

RFC 6979 derives an endless sequence of candidates. Its two registers are set
from the secret and the number to be signed; a candidate is drawn from them,
and after each candidate, whether it is used or not, they are changed before
the next one. The generator makes this change only when it draws again, which
may be within the same call or in a later one. It stands at the same place of
the sequence all the same, so that calls one after another return the nonces
among the candidates, in their order and without leaving one out.
-/

namespace CoinScript

/-- The 32 bytes that write a number, the most significant digit first. -/
def IsOctets (n : Nat) (bs : Bytes) : Prop := bs.length = 32 ∧ Bytes.toNatBE bs = n

theorem exists_isOctets {n : Nat} (below : n < Secp256k1.order) : ∃ bs, IsOctets n bs := by
  have wide : n < 256 ^ 32 := below.trans (by decide)
  exact ⟨Bytes.ofNatBE 32 n, Bytes.length_ofNatBE 32 n, Bytes.toNatBE_ofNatBE_of_lt wide⟩

theorem IsOctets.coordinateBytes {n : Nat} {bs : Bytes} (octets : IsOctets n bs) :
    Sec.coordinateBytes n = bs := by
  obtain ⟨length, rfl⟩ := octets
  exact Bytes.ofNatBE_toNatBE length

/-! ## The sequence of candidates -/

/-- The registers of section 3.2. -/
structure Registers where
  key : Bytes
  value : Bytes
deriving DecidableEq, Repr

namespace Registers

variable (mac : Bytes → Bytes → Bytes)

/-- Steps b to g, from the octets of the secret and of the number to be signed. -/
def initial (x h : Bytes) : Registers :=
  let value := List.replicate 32 0x01
  let key := List.replicate 32 0x00
  let key := mac key (value ++ [0x00] ++ x ++ h)
  let value := mac key value
  let key := mac key (value ++ [0x01] ++ x ++ h)
  ⟨key, mac key value⟩

/-- The candidate of step h. -/
def candidate (r : Registers) : Bytes := mac r.key r.value

/-- The rest of step h, which comes after the candidate. -/
def advance (r : Registers) : Registers :=
  let value := r.candidate mac
  let key := mac r.key (value ++ [0x00])
  ⟨key, mac key value⟩

/-- The registers that a candidate is drawn from. -/
def before (x h : Bytes) : (j : Nat) → Registers
  | 0 => initial mac x h
  | j + 1 => (before x h j).advance mac

/-- The candidates as numbers. -/
def candidates (x h : Bytes) (j : Nat) : Nat :=
  Bytes.toNatBE ((before mac x h j).candidate mac)

end Registers

/-- How many nonces come before a place of a sequence. -/
def noncesBefore (s : Nat → Nat) (j : Nat) : Nat := Nat.count (fun j => IsNonce (s j)) j

/-- The element of a sequence that is a nonce and has `i` nonces before it. -/
def IsNonceAt (s : Nat → Nat) (i k : Nat) : Prop :=
  ∃ j, IsNonce (s j) ∧ noncesBefore s j = i ∧ s j = k

section Sequence

variable {s : Nat → Nat} {j : Nat}

@[simp] theorem noncesBefore_zero : noncesBefore s 0 = 0 := Nat.count_zero _

theorem noncesBefore_succ_of_isNonce (nonce : IsNonce (s j)) :
    noncesBefore s (j + 1) = noncesBefore s j + 1 :=
  Nat.count_succ_eq_succ_count_iff.mpr nonce

theorem noncesBefore_succ_of_not_isNonce (other : ¬IsNonce (s j)) :
    noncesBefore s (j + 1) = noncesBefore s j :=
  Nat.count_succ_eq_count_iff.mpr other

theorem noncesBefore_lt_succ_iff : noncesBefore s j < noncesBefore s (j + 1) ↔ IsNonce (s j) :=
  Nat.count_lt_count_succ_iff

end Sequence

/-! ## Where the generator stands -/

namespace NonceGenerator

open Registers

variable {mac : Bytes → Bytes → Bytes} {r : Registers} {g g' : NonceGenerator} {x h : Bytes}

/-- Drawing begins with these registers, once the change that is due has been made. -/
def StandsAt (mac : Bytes → Bytes → Bytes) (r : Registers) (g : NonceGenerator) : Prop :=
  g.update mac = ⟨r.key, r.value, true⟩

/-- The generator has drawn the candidates before a place. -/
abbrev StandsBefore (mac : Bytes → Bytes → Bytes) (x h : Bytes) (j : Nat) (g : NonceGenerator) :
    Prop :=
  StandsAt mac (before mac x h j) g

theorem exists_standsBefore_ofSecret (mac : Bytes → Bytes → Bytes) {secret : Nat}
    (below : secret < Secp256k1.order) (z : Nat) :
    ∃ x h, IsOctets secret x ∧ IsOctets (z % Secp256k1.order) h ∧
      StandsBefore mac x h 0 (ofSecret mac secret z) := by
  obtain ⟨x, secretOctets⟩ := exists_isOctets below
  obtain ⟨h, numberOctets⟩ := exists_isOctets (Nat.mod_lt z (by decide : 0 < Secp256k1.order))
  refine ⟨x, h, secretOctets, numberOctets, ?_⟩
  unfold StandsBefore StandsAt ofSecret
  rw [secretOctets.coordinateBytes, numberOctets.coordinateBytes]
  simp only [before, initial, List.append_assoc, List.singleton_append]
  rfl

theorem StandsAt.draw_eq (stands : StandsAt mac r g) :
    g.draw mac = ⟨r.key, r.candidate mac, true⟩ := by
  unfold draw
  rw [stands]
  rfl

/-- The change after a candidate is due when the candidate has been drawn. -/
theorem StandsAt.draw (stands : StandsAt mac r g) :
    StandsAt mac (r.advance mac) (g.draw mac) := by
  unfold StandsAt
  rw [stands.draw_eq]
  rfl

/-! ## One call -/

variable {draws j k : Nat}

theorem StandsAt.next?_of_isNonce (stands : StandsBefore mac x h j g)
    (nonce : IsNonce (candidates mac x h j)) :
    next? mac (draws + 1) g = some (candidates mac x h j, g.draw mac) := by
  rw [next?, stands.draw_eq]
  exact if_pos nonce

theorem StandsAt.next?_of_not_isNonce (stands : StandsBefore mac x h j g)
    (other : ¬IsNonce (candidates mac x h j)) :
    next? mac (draws + 1) g = next? mac draws (g.draw mac) := by
  rw [next?, stands.draw_eq]
  exact if_neg other

/-- A call returns the first nonce from where the generator stands on, and leaves the generator
behind it. -/
theorem StandsAt.next?_sound (stands : StandsBefore mac x h j g)
    (returned : next? mac draws g = some (k, g')) :
    ∃ i, IsNonce (candidates mac x h i) ∧ candidates mac x h i = k ∧
      noncesBefore (candidates mac x h) i = noncesBefore (candidates mac x h) j ∧
      StandsBefore mac x h (i + 1) g' := by
  induction draws generalizing j g with
  | zero => cases returned
  | succ draws ih =>
    by_cases nonce : IsNonce (candidates mac x h j)
    · rw [stands.next?_of_isNonce nonce] at returned
      cases returned
      exact ⟨j, nonce, rfl, rfl, stands.draw⟩
    · rw [stands.next?_of_not_isNonce nonce] at returned
      obtain ⟨i, found, same, skipped, behind⟩ := ih (j := j + 1) stands.draw returned
      exact ⟨i, found, same, skipped.trans (noncesBefore_succ_of_not_isNonce nonce), behind⟩

/-- A call that may draw enough candidates returns, if there is a nonce to come. -/
theorem StandsAt.exists_next? (stands : StandsBefore mac x h j g) {n : Nat}
    (more : noncesBefore (candidates mac x h) j < noncesBefore (candidates mac x h) n) :
    ∃ draws k g', next? mac draws g = some (k, g') := by
  have later : j < n := Nat.lt_of_count_lt_count more
  -- on how far the place with more nonces is ahead
  obtain ⟨d, rfl⟩ := Nat.exists_eq_add_of_lt later
  induction d generalizing j g with
  | zero =>
    exact ⟨1, _, _, stands.next?_of_isNonce (noncesBefore_lt_succ_iff.mp more)⟩
  | succ d ih =>
    by_cases nonce : IsNonce (candidates mac x h j)
    · exact ⟨1, _, _, stands.next?_of_isNonce nonce⟩
    · rw [← noncesBefore_succ_of_not_isNonce nonce, show j + (d + 1) + 1 = j + 1 + d + 1 by omega]
        at more
      obtain ⟨draws, k, g', returned⟩ := ih (j := j + 1) stands.draw more (by omega)
      exact ⟨draws + 1, k, g', (stands.next?_of_not_isNonce nonce).trans returned⟩

/-! ## Calls one after another -/

/-- The nonces that calls one after another return, each drawing as many candidates as its own bound
allows. -/
def calls? (mac : Bytes → Bytes → Bytes) : (bounds : List Nat) → NonceGenerator → Option (List Nat)
  | [], _ => some []
  | draws :: bounds, g =>
    match next? mac draws g with
    | none => none
    | some (k, g) => (calls? mac bounds g).map (k :: ·)

theorem calls?_cons_eq_some_iff {bounds ks : List Nat} :
    calls? mac (draws :: bounds) g = some ks ↔ ∃ k g' others,
      next? mac draws g = some (k, g') ∧ calls? mac bounds g' = some others ∧ ks = k :: others := by
  rw [calls?]
  rcases next? mac draws g with _ | ⟨k, g'⟩
  · exact ⟨nofun, fun ⟨_, _, _, returned, _⟩ => nomatch returned⟩
  · simp only [Option.map_eq_some_iff, Option.some.injEq, Prod.mk.injEq]
    constructor
    · rintro ⟨others, called, rfl⟩
      exact ⟨k, g', others, ⟨rfl, rfl⟩, called, rfl⟩
    · rintro ⟨_, _, others, ⟨rfl, rfl⟩, called, rfl⟩
      exact ⟨others, called, rfl⟩

theorem StandsAt.calls?_sound (stands : StandsBefore mac x h j g) {bounds ks : List Nat}
    (called : calls? mac bounds g = some ks) :
    ks.length = bounds.length ∧ ∀ i k, ks[i]? = some k →
      IsNonceAt (candidates mac x h)
        (noncesBefore (candidates mac x h) j + i) k := by
  induction bounds generalizing j g ks with
  | nil =>
    cases called
    exact ⟨rfl, fun i k found => nomatch found⟩
  | cons draws bounds ih =>
    obtain ⟨k, g', others, returned, later, rfl⟩ := calls?_cons_eq_some_iff.mp called
    obtain ⟨m, nonce, same, skipped, behind⟩ := stands.next?_sound returned
    obtain ⟨length, follow⟩ := ih behind later
    refine ⟨congrArg Nat.succ length, fun i k' found => ?_⟩
    cases i with
    | zero =>
      obtain rfl : k = k' := Option.some.inj found
      exact ⟨m, nonce, skipped, same⟩
    | succ i =>
      have placed := follow i k' found
      rwa [noncesBefore_succ_of_isNonce nonce, skipped, Nat.succ_add_eq_add_succ] at placed

theorem StandsAt.exists_calls? (stands : StandsBefore mac x h j g) {n m : Nat}
    (enough : noncesBefore (candidates mac x h) j + n ≤
      noncesBefore (candidates mac x h) m) :
    ∃ bounds ks, bounds.length = n ∧ calls? mac bounds g = some ks := by
  induction n generalizing j g with
  | zero => exact ⟨[], [], rfl, rfl⟩
  | succ n ih =>
    obtain ⟨draws, k, g', returned⟩ := stands.exists_next? (n := m) (by omega)
    obtain ⟨i, nonce, -, skipped, behind⟩ := stands.next?_sound returned
    have left := noncesBefore_succ_of_isNonce nonce
    obtain ⟨bounds, ks, length, called⟩ := ih behind (by omega)
    exact ⟨draws :: bounds, k :: ks, congrArg Nat.succ length,
      calls?_cons_eq_some_iff.mpr ⟨k, g', ks, returned, called, rfl⟩⟩

/-- For every keyed digest, secret in range and number to be signed: calls that return give, one
after another, the nonces among the candidates in their order. As many calls as there are nonces
among the candidates return, if each may draw enough of them, and no more than that. -/
theorem calls_follow_candidates (mac : Bytes → Bytes → Bytes) {secret : Nat}
    (inside : IsNonce secret) (z : Nat) :
    ∃ x h, IsOctets secret x ∧ IsOctets (z % Secp256k1.order) h ∧
      (∀ bounds ks : List Nat, calls? mac bounds (ofSecret mac secret z) = some ks →
        ks.length = bounds.length ∧
          ∀ i k, ks[i]? = some k → IsNonceAt (candidates mac x h) i k) ∧
      ∀ n, (∃ bounds ks, bounds.length = n ∧ calls? mac bounds (ofSecret mac secret z) = some ks) ↔
        ∃ m, n ≤ noncesBefore (candidates mac x h) m := by
  obtain ⟨x, h, secretOctets, numberOctets, stands⟩ := exists_standsBefore_ofSecret mac inside.2 z
  have sound (bounds ks : List Nat) (called : calls? mac bounds (ofSecret mac secret z) = some ks) :
      ks.length = bounds.length ∧
        ∀ i k, ks[i]? = some k → IsNonceAt (candidates mac x h) i k := by
    have placed := stands.calls?_sound called
    simpa only [noncesBefore_zero, Nat.zero_add] using placed
  refine ⟨x, h, secretOctets, numberOctets, sound, fun n => ?_⟩
  constructor
  · rintro ⟨bounds, ks, rfl, called⟩
    obtain ⟨length, placed⟩ := sound bounds ks called
    rcases List.eq_nil_or_concat ks with rfl | ⟨first, last, rfl⟩
    · exact ⟨0, by simp [← length]⟩
    · -- the last nonce has all the others before it
      obtain ⟨j, nonce, others, -⟩ := placed first.length last (by simp)
      refine ⟨j + 1, ?_⟩
      rw [noncesBefore_succ_of_isNonce nonce, others, ← length]
      simp
  · rintro ⟨m, enough⟩
    refine stands.exists_calls? (m := m) ?_
    rwa [noncesBefore_zero, Nat.zero_add]

section Example

/-- A digest of a single byte, with many blocks that are not nonces. -/
def byteSum (key message : Bytes) : Bytes := [(key ++ message).foldl (· + ·) 1 % 3]

/-- The first candidate is rejected, and two more within the fifth call. -/
theorem calls_follow_candidates_byteSum :
    IsNonce 1 ∧ ∃ x h, IsOctets 1 x ∧ IsOctets (5 % Secp256k1.order) h ∧
      (List.range 8).map (candidates byteSum x h) = [0, 2, 1, 1, 2, 0, 0, 2] ∧
      calls? byteSum [2, 1, 1, 1, 3] (ofSecret byteSum 1 5) = some [2, 1, 1, 2, 2] ∧
      IsNonceAt (candidates byteSum x h) 2 1 ∧ IsNonceAt (candidates byteSum x h) 4 2 ∧
      ∃ m, 5 ≤ noncesBefore (candidates byteSum x h) m := by
  have inside : IsNonce 1 := by decide
  obtain ⟨x, h, secretOctets, numberOctets, follow, returns⟩ :=
    calls_follow_candidates byteSum inside 5
  have drawn : (List.range 8).map (candidates byteSum x h) = [0, 2, 1, 1, 2, 0, 0, 2] := by
    rw [← secretOctets.coordinateBytes, ← numberOctets.coordinateBytes]
    decide +kernel
  have called : calls? byteSum [2, 1, 1, 1, 3] (ofSecret byteSum 1 5) = some [2, 1, 1, 2, 2] := by
    decide +kernel
  have placed := (follow _ _ called).2
  exact ⟨inside, x, h, secretOctets, numberOctets, drawn, called, placed 2 1 rfl, placed 4 2 rfl,
    (returns 5).mp ⟨_, _, rfl, called⟩⟩

end Example

end NonceGenerator

/-! ## Signing with the generator -/

namespace PrivateKey

open NonceGenerator NonceSource Registers

variable {key : PrivateKey} {z : Nat} {sig : Signature} {x h : Bytes}

/-- Signing goes through the nonces from where the generator stands on, up to the first one that
gives a signature. -/
theorem signFrom_generator {draws j : Nat} {g : NonceGenerator}
    (stands : StandsBefore hmacSha256 x h j g)
    (signed : key.signFrom z draws (.generator g) = .ok (some sig)) :
    ∃ i k, IsNonceAt (candidates hmacSha256 x h)
        (noncesBefore (candidates hmacSha256 x h) j + i) k ∧
      key.signWith z k = .ok (some sig) ∧
      ∀ i' < i, ∃ k', IsNonceAt (candidates hmacSha256 x h)
        (noncesBefore (candidates hmacSha256 x h) j + i') k' ∧ key.signWith z k' = .ok none := by
  induction draws generalizing j g with
  | zero => cases signed
  | succ draws ih =>
    rw [signFrom, NonceSource.next?] at signed
    rcases returned : next? hmacSha256 maxDraws g with _ | ⟨k, g'⟩
    · rw [returned] at signed
      cases signed
    rw [returned] at signed
    obtain ⟨m, nonce, same, skipped, behind⟩ := stands.next?_sound returned
    obtain ⟨attempt, tried, signed⟩ := bind_eq_ok_iff.mp signed
    cases attempt with
    | some found =>
      cases signed
      exact ⟨0, k, ⟨m, nonce, skipped, same⟩, tried,
        fun i' below => absurd below (Nat.not_lt_zero i')⟩
    | none =>
      obtain ⟨i, k', placed, gives, fail⟩ := ih behind signed
      rw [noncesBefore_succ_of_isNonce nonce, skipped] at placed fail
      refine ⟨i + 1, k', by rwa [Nat.add_comm i 1, ← Nat.add_assoc], gives, fun i' below => ?_⟩
      cases i' with
      | zero => exact ⟨k, ⟨m, nonce, skipped, same⟩, tried⟩
      | succ i' =>
        rw [Nat.add_comm i' 1, ← Nat.add_assoc]
        exact fail i' (Nat.lt_of_succ_lt_succ below)

/-- A deterministic signature is given by the first nonce of the sequence that gives one. -/
theorem sign_deterministic {random : List Bytes}
    (signed : key.sign (.ofPolicy .deterministic random key.secret z) z = .ok (some sig)) :
    ∃ x h, IsOctets key.secret x ∧ IsOctets (z % Secp256k1.order) h ∧
      ∃ i k, IsNonceAt (candidates hmacSha256 x h) i k ∧ key.signWith z k = .ok (some sig) ∧
        ∀ i' < i, ∃ k', IsNonceAt (candidates hmacSha256 x h) i' k' ∧
          key.signWith z k' = .ok none := by
  obtain ⟨x, h, secretOctets, numberOctets, stands⟩ :=
    exists_standsBefore_ofSecret hmacSha256 key.secret_lt z
  obtain ⟨i, k, placed, gives, fail⟩ := signFrom_generator stands signed
  rw [noncesBefore_zero] at placed fail
  simp only [Nat.zero_add] at placed fail
  exact ⟨x, h, secretOctets, numberOctets, i, k, placed, gives, fail⟩

end PrivateKey

end CoinScript
