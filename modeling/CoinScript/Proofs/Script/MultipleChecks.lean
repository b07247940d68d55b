import CoinScript.Proofs.Guarded.Signature
import CoinScript.Proofs.Script.KeyHash
import CoinScript.Proofs.Script.Limits
import CoinScript.Script.Opcode
import Mathlib.Data.List.NodupEquivFin

/-!
# Signatures matched with keys in order

A multiple check gives each signature the first key left over that verifies it.
That finds a key for every signature whenever the keys can be given out in
order at all: if some assignment passes a key that verifies the next signature,
then this key can take the place of the one assigned, and no key is lost for
the signatures after it. Stacks that are not counted keys and counted
signatures with one item more below them are refused, and the first count that
cannot be taken decides for which reason.
-/

namespace CoinScript

/-! ## Increasing positions -/

section Positions

variable {α β : Type} {R : α → β → Prop} {a : α} {b : β} {as : List α} {bs : List β}

/-- Some items of the second list, in their order, are related to the items of the first one exactly if
these have increasing positions in the second at which they are related. -/
theorem sublistForall₂_iff_exists_strictMono : List.SublistForall₂ R as bs ↔
    ∃ f : Fin as.length → Fin bs.length, StrictMono f ∧ ∀ i, R (as.get i) (bs.get (f i)) := by
  rw [List.sublistForall₂_iff]
  constructor
  · rintro ⟨picked, related, part⟩
    obtain ⟨same, pairs⟩ := List.forall₂_iff_get.mp related
    obtain ⟨position, at_position⟩ := List.sublist_iff_exists_fin_orderEmbedding_get_eq.mp part
    refine ⟨fun i => position (i.cast same),
      position.strictMono.comp (Fin.cast_strictMono same), fun i => ?_⟩
    rw [← at_position (i.cast same)]
    exact pairs i i.isLt _
  · rintro ⟨f, increasing, related⟩
    have same : (List.ofFn fun i => bs.get (f i)).length = as.length := List.length_ofFn
    refine ⟨List.ofFn fun i => bs.get (f i), List.forall₂_iff_get.mpr ⟨same.symm, ?_⟩,
      List.sublist_iff_exists_fin_orderEmbedding_get_eq.mpr ⟨OrderEmbedding.ofStrictMono
        (fun i => f (i.cast same)) (increasing.comp (Fin.cast_strictMono same)), fun i => ?_⟩⟩
    · intro i inside _
      rw [List.get_ofFn]
      exact related ⟨i, inside⟩
    · exact List.get_ofFn _ i

/-- What the items after the first one can be given, they can be given by a longer list as well. -/
theorem sublistForall₂_of_cons (h : List.SublistForall₂ R (a :: as) bs) :
    List.SublistForall₂ R as bs := by
  induction bs with
  | nil => cases h
  | cons b bs ih =>
    cases h with
    | cons _ rest => exact .cons_right rest
    | cons_right later => exact .cons_right (ih later)

/-- The exchange: nothing is lost by the first item taking the first partner that it can have. -/
theorem sublistForall₂_cons_cons_of_related (related : R a b) :
    List.SublistForall₂ R (a :: as) (b :: bs) ↔ List.SublistForall₂ R as bs := by
  refine ⟨fun h => ?_, .cons related⟩
  cases h with
  | cons _ rest => exact rest
  | cons_right later => exact sublistForall₂_of_cons later

theorem sublistForall₂_cons_cons_of_unrelated (unrelated : ¬R a b) :
    List.SublistForall₂ R (a :: as) (b :: bs) ↔ List.SublistForall₂ R (a :: as) bs := by
  refine ⟨fun h => ?_, .cons_right⟩
  cases h with
  | cons related _ => exact absurd related unrelated
  | cons_right later => exact later

theorem exists_of_forall₂ (related : List.Forall₂ R as bs) : ∀ a ∈ as, ∃ b, R a b := by
  induction related with
  | nil => exact fun a member => nomatch member
  | cons first _ ih => exact List.forall_mem_cons.mpr ⟨⟨_, first⟩, ih⟩

end Positions

namespace SignatureCheck

/-! ## Operands -/

/-- The item is a number of at most four bytes. -/
def Counts (item : Bytes) (n : Int) : Prop :=
  item.length ≤ 4 ∧ Number.decode? item = some n

/-- The items of a multiple check from the one with no use to the top, with counts that are right. -/
structure Operands where
  dummy : Bytes
  sigs : List Bytes
  sigCount : Bytes
  keys : List Bytes
  keyCount : Bytes
  sigs_counted : Counts sigCount sigs.length
  sigs_few : sigs.length ≤ keys.length
  keys_counted : Counts keyCount keys.length
  keys_few : keys.length ≤ 20

/-- The stack after the items were pushed in their order. -/
def Operands.onto (o : Operands) (base : Stack) : Stack :=
  ([o.dummy] ++ o.sigs ++ [o.sigCount] ++ o.keys ++ [o.keyCount]).reverse ++ base

/-- Why no count of at most `limit` with that many items below it can be taken from the stack. -/
inductive CountFault (limit : Nat) : Stack → FailureCode → Prop where
  | absent : CountFault limit [] .stackUnderflow
  | long {count : Bytes} {below : Stack} : 4 < count.length →
      CountFault limit (count :: below) .numericOverflow
  | outside {count : Bytes} {below : Stack} {n : Int} : Counts count n → n < 0 ∨ limit < n →
      CountFault limit (count :: below) .keyCount
  | short {count : Bytes} {below : Stack} {n : Nat} : Counts count n → n ≤ limit →
      below.length < n → CountFault limit (count :: below) .stackUnderflow

/-- Why the stack has no operands of a multiple check on top. -/
inductive OperandFault : Stack → FailureCode → Prop where
  | keys {s : Stack} {code : FailureCode} : CountFault 20 s code → OperandFault s code
  | sigs {keyCount : Bytes} {keys : List Bytes} {below : Stack} {code : FailureCode} :
      Counts keyCount keys.length → keys.length ≤ 20 → CountFault keys.length below code →
      OperandFault (keyCount :: (keys.reverse ++ below)) code
  | dummy {keyCount sigCount : Bytes} {keys sigs : List Bytes} :
      Counts keyCount keys.length → keys.length ≤ 20 →
      Counts sigCount sigs.length → sigs.length ≤ keys.length →
      OperandFault (keyCount :: (keys.reverse ++ sigCount :: sigs.reverse)) .stackUnderflow

/-- The item is the encoding of the key. -/
def IsKey (item : Bytes) (p : Point) : Prop :=
  Sec.decode item = .ok p

/-- The item is an encoding of the signature with one byte behind it. -/
def IsSignature (item : Bytes) (sig : Signature) : Prop :=
  item ≠ [] ∧ Der.decode item.dropLast = .ok sig

/-- Some key or some signature cannot be decoded. -/
def Operands.Unreadable (o : Operands) : Prop :=
  (∃ item ∈ o.keys, ∀ p, ¬IsKey item p) ∨ ∃ item ∈ o.sigs, ∀ sig, ¬IsSignature item sig

/-- The key verifies the signature of the number. -/
def Verifies (z : Nat) (sig : Signature) (p : Point) : Prop :=
  p.verify sig z = .ok .accepted

/-- Each signature has a key that verifies it, and the keys come in the order of the signatures. -/
def MatchedInOrder (z : Nat) (sigs : List Signature) (keys : List Point) : Prop :=
  ∃ f : Fin sigs.length → Fin keys.length, StrictMono f ∧
    ∀ i, Verifies z (sigs.get i) (keys.get (f i))

/-! ## Counts -/

section Counts

variable {limit : Nat} {count : Bytes} {items : List Bytes} {below s : Stack} {code : FailureCode}

theorem operand_of_counts {n : Int} (counted : Counts count n) : Stack.operand count = .ok n := by
  obtain ⟨short, read⟩ := counted
  rw [Stack.operand_of_short short, (Number.decode?_eq_some_iff.mp read).2]

theorem takeCounted_of_counted (counted : Counts count items.length) (few : items.length ≤ limit) :
    takeCounted limit (count :: (items.reverse ++ below)) = .ok (items, below) :=
  takeCounted_eq_ok_iff.mpr ⟨count, operand_of_counts counted, few, rfl⟩

theorem takeCounted_of_fault (fault : CountFault limit s code) :
    takeCounted limit s = .error code := by
  cases fault with
  | absent => rfl
  | long long => rw [takeCounted_cons, Stack.operand_of_long long]; rfl
  | outside counted outside => rw [takeCounted_cons, operand_of_counts counted, ok_bind, if_pos outside]
  | short counted few short =>
    rw [takeCounted_cons, operand_of_counts counted, ok_bind, if_neg (by omega), if_pos (by omega)]

theorem counted_or_fault (limit : Nat) (s : Stack) :
    (∃ (count : Bytes) (items : List Bytes) (below : Stack), Counts count items.length ∧
      items.length ≤ limit ∧ s = count :: (items.reverse ++ below)) ∨
        ∃ code, CountFault limit s code := by
  rcases s with _ | ⟨count, below⟩
  · exact .inr ⟨_, .absent⟩
  by_cases short : count.length ≤ 4
  swap
  · exact .inr ⟨_, .long (Nat.lt_of_not_le short)⟩
  have counted : Counts count (Number.value count) := ⟨short, Number.decode?_of_short short⟩
  by_cases outside : Number.value count < 0 ∨ limit < Number.value count
  · exact .inr ⟨_, .outside counted outside⟩
  obtain ⟨n, same⟩ : ∃ n : Nat, Number.value count = n := ⟨_, (Int.toNat_of_nonneg (by omega)).symm⟩
  rw [same] at counted outside
  by_cases few : below.length < n
  · exact .inr ⟨_, .short counted (by omega) few⟩
  have length : (below.take n).reverse.length = n := by
    rw [List.length_reverse, List.length_take]
    omega
  refine .inl ⟨count, (below.take n).reverse, below.drop n, ?_, by omega, ?_⟩
  · rwa [length]
  · rw [List.reverse_reverse, List.take_append_drop]

end Counts

theorem Operands.onto_eq (o : Operands) (base : Stack) : o.onto base =
    o.keyCount :: (o.keys.reverse ++ o.sigCount :: (o.sigs.reverse ++ o.dummy :: base)) := by
  simp [onto]

/-- There are counted keys and signatures and one item more, or a reason why there are not. -/
theorem onto_or_fault (s : Stack) :
    (∃ (o : Operands) (base : Stack), s = o.onto base) ∨ ∃ code, OperandFault s code := by
  obtain ⟨keyCount, keys, s, keys_counted, keys_few, rfl⟩ | ⟨code, fault⟩ := counted_or_fault 20 s
  swap
  · exact .inr ⟨code, .keys fault⟩
  obtain ⟨sigCount, sigs, s, sigs_counted, sigs_few, rfl⟩ | ⟨code, fault⟩ :=
    counted_or_fault keys.length s
  swap
  · exact .inr ⟨code, .sigs keys_counted keys_few fault⟩
  rcases s with _ | ⟨dummy, base⟩
  · rw [List.append_nil]
    exact .inr ⟨_, .dummy keys_counted keys_few sigs_counted sigs_few⟩
  · refine .inl ⟨⟨dummy, sigs, sigCount, keys, keyCount, sigs_counted, sigs_few, keys_counted, keys_few⟩,
      base, ?_⟩
    rw [Operands.onto_eq]

/-! ## Matching -/

section Matching

variable {z : Nat} {p : Point} {sig : Signature} {keys : List Point}

/-- A key of the curve verifies the signature, or it does not. -/
theorem exists_accepts (on : p.IsOn Secp256k1.curve) (sig : Signature) : ∃ accepted : Bool,
    (accepts z p sig).result = .ok accepted ∧
      (accepted = true ↔ Verifies z sig p) := by
  obtain ⟨accepted, verified⟩ := p.verify_isOn on sig z
  refine ⟨accepted, result_accepts_iff.mpr ⟨_, verified, ?_⟩, ?_⟩
  · cases accepted <;> rfl
  · rw [Verifies, verified]
    cases accepted <;> simp

/-- The keys left over by a signature are those with which the signatures after it can be matched if
they can be matched at all. -/
theorem exists_keysAfter? (on : ∀ p ∈ keys, p.IsOn Secp256k1.curve) (sig : Signature) :
    ∃ left, (keysAfter? z sig keys).result = .ok left ∧
      ∀ sigs, List.SublistForall₂ (Verifies z) (sig :: sigs) keys ↔
        ∃ others ∈ left, List.SublistForall₂ (Verifies z) sigs others := by
  induction keys with
  | nil =>
    exact ⟨none, rfl, fun sigs => iff_of_false nofun nofun⟩
  | cons p keys ih =>
    obtain ⟨first, rest⟩ := List.forall_mem_cons.mp on
    obtain ⟨accepted, given, accepted_iff⟩ := exists_accepts (z := z) first sig
    cases accepted with
    | true =>
      -- the first key is taken; an assignment that passes it can be changed to take it
      refine ⟨some keys, Traced.result_bind_eq_ok_iff.mpr ⟨true, given, rfl⟩, fun sigs => ?_⟩
      rw [sublistForall₂_cons_cons_of_related (accepted_iff.mp rfl)]
      simp
    | false =>
      obtain ⟨left, found, matched⟩ := ih rest
      refine ⟨left, Traced.result_bind_eq_ok_iff.mpr ⟨false, given, found⟩, fun sigs => ?_⟩
      rw [sublistForall₂_cons_cons_of_unrelated fun h => nomatch accepted_iff.mpr h]
      exact matched sigs

theorem exists_matchInOrder (sigs : List Signature) (on : ∀ p ∈ keys, p.IsOn Secp256k1.curve) :
    ∃ matched, (matchInOrder z sigs keys).result = .ok matched ∧
      (matched = true ↔ List.SublistForall₂ (Verifies z) sigs keys) := by
  induction sigs generalizing keys with
  | nil => exact ⟨true, rfl, iff_of_true rfl .nil⟩
  | cons sig sigs ih =>
    obtain ⟨left, found, after⟩ := exists_keysAfter? (z := z) on sig
    rw [after]
    cases left with
    | none =>
      refine ⟨false, Traced.result_bind_eq_ok_iff.mpr ⟨none, found, rfl⟩, ?_⟩
      simp
    | some others =>
      obtain ⟨matched, ran, matched_iff⟩ := ih fun p member => on p (mem_of_keysAfter? found member)
      refine ⟨matched, Traced.result_bind_eq_ok_iff.mpr ⟨some others, found, ran⟩, ?_⟩
      simpa using matched_iff

end Matching

/-! ## Decoding -/

theorem isKey_rightUnique : Relator.RightUnique IsKey :=
  fun _ _ _ p q => Except.ok.inj (p.symm.trans q)

theorem isSignature_rightUnique : Relator.RightUnique IsSignature :=
  fun _ _ _ p q => Except.ok.inj (p.2.symm.trans q.2)

theorem isSignature_encode {sig : Signature} (range : sig.InRange) (hashType : UInt8) :
    IsSignature (Der.encode sig ++ [hashType]) sig := by
  refine ⟨List.concat_ne_nil _ _, ?_⟩
  rw [List.dropLast_concat]
  exact Der.decode_encode_of_inRange range

/-- What is read of a list is read of each item; one item that cannot be read decides the failure. -/
theorem mapM_reads {α : Type} {reads : Bytes → α → Prop} {read : Bytes → Check α} {e : Fault FailureCode}
    (each : ∀ item, (∃ a, reads item a ∧ (read item).result = .ok a) ∨
      ((∀ a, ¬reads item a) ∧ (read item).result = .error e)) (items : List Bytes) :
    (∃ as, List.Forall₂ reads items as ∧ (items.mapM read).result = .ok as) ∨
      ((∃ item ∈ items, ∀ a, ¬reads item a) ∧ (items.mapM read).result = .error e) := by
  induction items with
  | nil => exact .inl ⟨[], .nil, rfl⟩
  | cons item items ih =>
    rw [List.mapM_cons, Traced.result_bind]
    obtain ⟨a, holds, given⟩ | ⟨unreadable, failed⟩ := each item
    · rw [given]
      obtain ⟨as, all, rest⟩ | ⟨⟨other, member, unreadable⟩, failed⟩ := ih
      · refine .inl ⟨a :: as, .cons holds all, ?_⟩
        rw [ok_bind, Traced.result_bind, rest]
        rfl
      · refine .inr ⟨⟨other, List.mem_cons_of_mem item member, unreadable⟩, ?_⟩
        rw [ok_bind, Traced.result_bind, failed]
        rfl
    · rw [failed]
      exact .inr ⟨⟨item, List.mem_cons_self, unreadable⟩, rfl⟩

theorem readKey_or_fail (item : Bytes) : (∃ p, IsKey item p ∧ (readKey item).result = .ok p) ∨
    ((∀ p, ¬IsKey item p) ∧ (readKey item).result = .error (.error .badEncoding)) := by
  unfold readKey IsKey
  cases Sec.decode item with
  | ok p => exact .inl ⟨p, rfl, rfl⟩
  | error e => exact .inr ⟨nofun, rfl⟩

theorem readSignature_or_fail (item : Bytes) :
    (∃ sig, IsSignature item sig ∧ (readSignature item).result = .ok sig) ∨
      ((∀ sig, ¬IsSignature item sig) ∧
        (readSignature item).result = .error (.error .badEncoding)) := by
  unfold readSignature IsSignature
  by_cases empty : item = []
  · rw [if_pos empty]
    exact .inr ⟨fun sig h => h.1 empty, rfl⟩
  · rw [if_neg empty]
    cases Der.decode item.dropLast with
    | ok sig => exact .inl ⟨sig, ⟨empty, rfl⟩, rfl⟩
    | error e => exact .inr ⟨nofun, rfl⟩

/-! ## The check -/

section Multiple

variable {z : Nat} {s : Stack} {code : FailureCode}

theorem result_lift_bind {α β : Type} (a : α) (f : α → Check β) :
    (liftM (Except.ok a : Except FailureCode α) >>= f : Check β).result = (f a).result := rfl

theorem result_multiple_of_fault (fault : OperandFault s code) :
    (multiple z s).result = .error (.error code) := by
  unfold multiple maxKeys
  cases fault with
  | keys fault =>
    rw [takeCounted_of_fault fault]
    rfl
  | sigs keys_counted keys_few fault =>
    rw [takeCounted_of_counted keys_counted keys_few, result_lift_bind]
    dsimp only
    rw [takeCounted_of_fault fault]
    rfl
  | dummy keys_counted keys_few sigs_counted sigs_few =>
    rw [takeCounted_of_counted keys_counted keys_few, result_lift_bind]
    dsimp only
    rw [← List.append_nil (List.reverse _), takeCounted_of_counted sigs_counted sigs_few]
    rfl

theorem result_multiple_onto (o : Operands) (base : Stack) : (multiple z (o.onto base)).result =
    (do let points ← o.keys.mapM readKey
        let sigs ← o.sigs.mapM readSignature
        let matched ← matchInOrder z sigs points
        return Number.ofBool matched :: base : Check Stack).result := by
  rw [o.onto_eq, multiple, maxKeys, takeCounted_of_counted o.keys_counted o.keys_few,
    result_lift_bind]
  dsimp only
  rw [takeCounted_of_counted o.sigs_counted o.sigs_few, result_lift_bind]

theorem result_run_multiple : (SignatureInstruction.run z s (.multiple false)).result =
    (multiple z s).result := by
  rw [SignatureInstruction.run, Traced.result_bind]
  cases (multiple z s).result <;> rfl

end Multiple

namespace Operands

variable {z : Nat} {o : Operands} {base : Stack}

/-- The check fails on a key or a signature that cannot be decoded, or it leaves whether the signatures
are matched with the keys. -/
theorem result_multiple (z : Nat) (o : Operands) (base : Stack) :
    (o.Unreadable ∧ (multiple z (o.onto base)).result = .error (.error .badEncoding)) ∨
      ∃ points sigs, List.Forall₂ IsKey o.keys points ∧ List.Forall₂ IsSignature o.sigs sigs ∧
        ∃ matched, (multiple z (o.onto base)).result = .ok (Number.ofBool matched :: base) ∧
          (matched = true ↔ MatchedInOrder z sigs points) := by
  rw [result_multiple_onto, Traced.result_bind]
  obtain ⟨points, are_keys, keys_read⟩ | ⟨unreadable, failed⟩ := mapM_reads readKey_or_fail o.keys
  swap
  · rw [failed]
    exact .inl ⟨.inl unreadable, rfl⟩
  rw [keys_read, ok_bind, Traced.result_bind]
  obtain ⟨sigs, are_sigs, sigs_read⟩ | ⟨unreadable, failed⟩ :=
    mapM_reads readSignature_or_fail o.sigs
  swap
  · rw [failed]
    exact .inl ⟨.inr unreadable, rfl⟩
  rw [sigs_read, ok_bind, Traced.result_bind]
  obtain ⟨matched, ran, matched_iff⟩ :=
    exists_matchInOrder (z := z) sigs (isOn_of_mapM_readKey keys_read)
  rw [ran, ok_bind]
  exact .inr ⟨points, sigs, are_keys, are_sigs, matched, rfl,
    matched_iff.trans sublistForall₂_iff_exists_strictMono⟩

/-- Items that were decoded can be. -/
theorem not_unreadable {points : List Point} {sigs : List Signature}
    (are_keys : List.Forall₂ IsKey o.keys points) (are_sigs : List.Forall₂ IsSignature o.sigs sigs) :
    ¬o.Unreadable := by
  rintro (⟨item, member, unreadable⟩ | ⟨item, member, unreadable⟩)
  · obtain ⟨p, is_key⟩ := exists_of_forall₂ are_keys item member
    exact unreadable p is_key
  · obtain ⟨sig, is_sig⟩ := exists_of_forall₂ are_sigs item member
    exact unreadable sig is_sig

end Operands

/-- A multiple check is a matching in order. On counted keys and counted signatures with one item more
it fails if one of them cannot be decoded, and it leaves whether each signature has a key that verifies
it, in the order of the signatures. On every other stack it fails for the reason that there is. -/
theorem multiple_matches_in_order :
    Opcode.instructionOf? 0xae = some (.signature (.multiple false)) ∧
    (∀ (z : Nat) (o : Operands) (base : Stack),
      (o.Unreadable → (SignatureInstruction.run z (o.onto base) (.multiple false)).result =
        .error (.error .badEncoding)) ∧
      (¬o.Unreadable → ∃ points sigs, List.Forall₂ IsKey o.keys points ∧
        List.Forall₂ IsSignature o.sigs sigs ∧
        ∃ matched, (SignatureInstruction.run z (o.onto base) (.multiple false)).result =
            .ok (Number.ofBool matched :: base) ∧
          (matched = true ↔ MatchedInOrder z sigs points))) ∧
    (∀ (z : Nat) (s : Stack) (code : FailureCode), OperandFault s code →
      (SignatureInstruction.run z s (.multiple false)).result = .error (.error code)) ∧
    ∀ s : Stack, (∃ (o : Operands) (base : Stack), s = o.onto base) ∨
      ∃ code, OperandFault s code := by
  refine ⟨rfl, fun z o base => ?_, fun z s code fault => ?_, onto_or_fault⟩
  · rw [result_run_multiple]
    obtain ⟨unreadable, failed⟩ | ⟨points, sigs, are_keys, are_sigs, result⟩ :=
      o.result_multiple z base
    · exact ⟨fun _ => failed, fun h => absurd unreadable h⟩
    · exact ⟨fun h => absurd h (Operands.not_unreadable are_keys are_sigs),
        fun _ => ⟨points, sigs, are_keys, are_sigs, result⟩⟩
  · rw [result_run_multiple]
    exact result_multiple_of_fault fault

/-- One signature and two keys: the second key has given the signature, so the check leaves true. A count
of twenty-one keys is refused, and so is a key that is empty. -/
theorem multiple_matches_in_order_second : ∃ sig first second : Bytes,
    (SignatureInstruction.run 1 [[0x02], second, first, [0x01], sig, [], [0x07]] (.multiple false)).result =
      .ok [Number.ofBool true, [0x07]] ∧
    (SignatureInstruction.run 1 [[0x15], second, first] (.multiple false)).result =
      .error (.error .keyCount) ∧
    (SignatureInstruction.run 1 [[0x01], [], [], []] (.multiple false)).result =
      .error (.error .badEncoding) := by
  obtain ⟨-, checks, faults, -⟩ := multiple_matches_in_order
  obtain ⟨two, -, -, -⟩ := @PrivateKey.exists_ofSecret 2 (by decide) (by decide)
  obtain ⟨one, -, secret, -⟩ := @PrivateKey.exists_ofSecret 1 (by decide) (by decide)
  obtain ⟨first, first_encoded⟩ := two.exists_sec true
  obtain ⟨second, second_encoded⟩ := one.exists_sec true
  have signed := PrivateKey.signWith_one secret
  obtain ⟨sig, is_sig⟩ : ∃ sig, IsSignature sig ⟨Secp256k1.generatorX, Secp256k1.generatorX + 1⟩ :=
    ⟨_, isSignature_encode (PrivateKey.inRange_of_signWith signed) 0x01⟩
  refine ⟨sig, first, second, ?_, faults 1 _ _ (.keys (.outside (n := 21) ⟨by decide, rfl⟩ ?_)), ?_⟩
  · let o : Operands :=
      { dummy := [], sigs := [sig], sigCount := [0x01], keys := [first, second], keyCount := [0x02],
        sigs_counted := ⟨by decide, rfl⟩, sigs_few := Nat.le_succ 1,
        keys_counted := ⟨by decide, rfl⟩, keys_few := Nat.le_add_left 2 18 }
    have keys_read : List.Forall₂ IsKey o.keys [two.publicPoint, one.publicPoint] :=
      .cons (Sec.decode_of_encode two.publicPoint_isOn first_encoded)
        (.cons (Sec.decode_of_encode one.publicPoint_isOn second_encoded) .nil)
    have sigs_read : List.Forall₂ IsSignature o.sigs _ := .cons is_sig .nil
    obtain ⟨points, sigs, are_keys, are_sigs, matched, ran, matched_iff⟩ :=
      (checks 1 o [[0x07]]).2 (Operands.not_unreadable keys_read sigs_read)
    obtain rfl := List.right_unique_forall₂' isKey_rightUnique keys_read are_keys
    obtain rfl := List.right_unique_forall₂' isSignature_rightUnique sigs_read are_sigs
    obtain rfl : matched = true := by
      let at_second : Fin 1 → Fin 2 := fun _ => 1
      exact matched_iff.mpr ⟨at_second, Subsingleton.strictMono at_second,
        Fin.forall_fin_one.mpr (PrivateKey.verify_of_signWith signed)⟩
    exact ran
  · exact .inr (by decide)
  · let o : Operands :=
      { dummy := [], sigs := [], sigCount := [], keys := [[]], keyCount := [0x01],
        sigs_counted := ⟨by decide, rfl⟩, sigs_few := Nat.zero_le 1,
        keys_counted := ⟨by decide, rfl⟩, keys_few := Nat.le_add_left 1 19 }
    exact (checks 1 o []).1 (.inl ⟨[], List.mem_cons_self, nofun⟩)

end SignatureCheck

end CoinScript
