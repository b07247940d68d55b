import CoinScript.Guarded.Signature
import CoinScript.Proofs.Guarded.Stack
import CoinScript.Proofs.Script.Faults

/-!
# Signature checks on vectors stay in their domains

A key is cut out of its bytes within range, its coordinates belong to one
field, and a compressed key is on the curve once its root is one. The
arithmetic of the curve refuses no point of secp256k1, because sums of its
points are such points. So verification gives a verdict for every key that was
read, without the case for refused keys.
-/

namespace CoinScript

open Guarded

/-! ## Keys -/

/-- The equation can be computed with the operators of the field. -/
theorem Curve.guardedContains_eq {ε : Type} (c : Curve) (x y : FieldElement) :
    (c.guardedContains x y : Guarded ε Bool) = .ok (c.contains x y) := by
  unfold guardedContains contains
  by_cases foreign : x.modulus ≠ c.modulus ∨ y.modulus ≠ c.modulus
  · rw [if_pos foreign]
    rcases foreign with x_foreign | y_foreign
    · simp [x_foreign]
    · simp [y_foreign]
  · rw [if_neg foreign]
    obtain ⟨x_field, y_field⟩ : x.modulus = c.modulus ∧ y.modulus = c.modulus := by
      simpa using foreign
    have left : y.mul y = .ok (y.residue (y.num * y.num)) := if_pos rfl
    have square : x.mul x = .ok (x.residue (x.num * x.num)) := if_pos rfl
    have cube : (x.residue (x.num * x.num)).mul x =
        .ok (x.residue (x.num * x.num % x.modulus * x.num)) := if_pos rfl
    have linear : c.a.mul x = .ok (c.a.residue (c.a.num * x.num)) := if_pos x_field.symm
    have others : (c.a.residue (c.a.num * x.num)).add c.b =
        .ok (c.a.residue (c.a.num * x.num % c.modulus + c.b.num)) := if_pos c.same_modulus
    have right : (x.residue (x.num * x.num % x.modulus * x.num)).add
          (c.a.residue (c.a.num * x.num % c.modulus + c.b.num)) =
        .ok (x.residue (x.num * x.num % x.modulus * x.num % x.modulus +
          (c.a.num * x.num % c.modulus + c.b.num) % c.modulus)) := if_pos x_field
    rw [x_field] at cube right
    rw [left, square]
    simp only [operate_ok, ok_bind, cube, linear, others, right, pure_eq_ok, x_field, y_field,
      beq_self_eq_true, Bool.true_and]
    refine congrArg Except.ok (Bool.eq_iff_iff.mpr ?_)
    rw [beq_iff_eq, beq_iff_eq, FieldElement.eq_iff]
    simp only [FieldElement.residue, x_field, y_field, and_true]
    simp [Nat.add_mod, Nat.mul_mod]

theorem Point.guardedOfCoordinates_eq (x y : FieldElement) (c : Curve) :
    guardedOfCoordinates x y c = ofResult (ofCoordinates x y c) := by
  rw [guardedOfCoordinates, Curve.guardedContains_eq, ok_bind, ofCoordinates]
  cases c.contains x y <;> rfl

theorem Secp256k1.guardedCoordinate_of_lt {n : Nat} (bound : n < fieldPrime) :
    guardedCoordinate n = .ok (residue n) := by
  rw [guardedCoordinate, coordinate_eq_ok_iff.mpr ⟨bound, rfl⟩]
  rfl

theorem Secp256k1.guardedPoint_eq (x y : Nat) : guardedPoint x y = ofResult (point x y) := by
  rw [guardedPoint, point, guardedCoordinate, guardedCoordinate]
  cases coordinate x with
  | error e => rfl
  | ok x =>
    cases coordinate y with
    | error e => rfl
    | ok y => exact Point.guardedOfCoordinates_eq x y curve

namespace Sec

open Secp256k1 (fieldPrime curve residue)

theorem guardedDecodeFull_eq {marker : UInt8} {body : Bytes} (length : body.length = 64) :
    guardedDecodeFull (marker :: body) = ofResult (decodeFull body) := by
  have long : (marker :: body).length = 65 := by rw [List.length_cons, length]
  have front : (slice (marker :: body) 1 33 : Guarded SecError Bytes) = .ok (body.take 32) := by
    rw [slice_of_le (by decide) (by omega)]
    rfl
  have rest : (slice (marker :: body) 33 (marker :: body).length : Guarded SecError Bytes) =
      .ok (body.drop 32) := by
    rw [slice_of_le (by omega) (Nat.le_refl _), List.take_length]
    rfl
  rw [guardedDecodeFull, front, ok_bind, rest, ok_bind, Secp256k1.guardedPoint_eq,
    mapFailure_ofResult]
  rfl

/-- Coordinates that were decoded pass the check of the curve. -/
theorem contains_of_decodeCompressed {even : Bool} {n : Nat} {x y : FieldElement}
    (decoded : decodeCompressed even n = .ok (.affine x y curve)) : curve.contains x y = true := by
  obtain ⟨-, Y, equation, -, same⟩ := decodeCompressed_eq_ok_iff.mp decoded
  cases same
  exact Secp256k1.contains_iff.mpr ⟨_, Y, equation, Secp256k1.residue_eq _, rfl⟩

/-- The right side of the equation, computed with the operators of the field. -/
theorem operate_right (n : Nat) :
    ((residue n).mul (residue n) >>= fun square => square.mul (residue n) >>= fun cube =>
      cube.add curve.b) = .ok (residue (n * n * n + curve.b.num)) := by
  have constant : curve.b = residue 7 := rfl
  have seven : (residue 7).num = 7 := by decide
  rw [constant, seven]
  simp only [Secp256k1.residue_eq, FieldElement.mul_ofZMod, ok_bind, FieldElement.add_ofZMod]
  push_cast
  rfl

/-- Of a number below the prime, only the root of the right side is in question. -/
theorem decodeCompressed_of_lt {n : Nat} {right : FieldElement} (even : Bool)
    (bound : n < fieldPrime) (equation : residue (n * n * n + curve.b.num) = right) :
    decodeCompressed even n =
      if right.sqrt.residue (right.sqrt.num * right.sqrt.num) = right then
        .ok (.affine (residue n)
          (if right.sqrt.isEven = even then right.sqrt else right.sqrt.neg) curve)
      else .error .xNotOnCurve := by
  rw [decodeCompressed, if_neg (Nat.not_le_of_lt bound), ← equation]

theorem guardedDecodeCompressed_eq {marker : UInt8} (even : Bool) (body : Bytes) :
    guardedDecodeCompressed even (marker :: body) =
      ofResult (decodeCompressed even (Bytes.toNatBE body)) := by
  have digits : (slice (marker :: body) 1 (marker :: body).length : Guarded SecError Bytes) =
      .ok body := by
    rw [slice_of_le (by simp) (Nat.le_refl _), List.take_length]
    rfl
  rw [guardedDecodeCompressed, digits, ok_bind]
  dsimp only
  generalize Bytes.toNatBE body = n
  by_cases large : fieldPrime ≤ n
  · rw [if_pos large, decodeCompressed, if_pos large]
    rfl
  have bound := Nat.lt_of_not_le large
  obtain ⟨square, squared, computed⟩ := bind_eq_ok_iff.mp (operate_right n)
  obtain ⟨cube, cubed, computed⟩ := bind_eq_ok_iff.mp computed
  generalize equation : residue (n * n * n + curve.b.num) = right at computed
  have model := decodeCompressed_of_lt even bound equation
  have again : right.sqrt.mul right.sqrt =
      .ok (right.sqrt.residue (right.sqrt.num * right.sqrt.num)) := if_pos rfl
  rw [if_neg large, Secp256k1.guardedCoordinate_of_lt bound, mapFailure_ok, ok_bind, squared,
    operate_ok, ok_bind, cubed, operate_ok, ok_bind, computed, operate_ok, ok_bind, again,
    operate_ok, ok_bind]
  by_cases root : right.sqrt.residue (right.sqrt.num * right.sqrt.num) = right
  · rw [if_pos root] at model ⊢
    rw [Point.guardedOfCoordinates_eq, mapFailure_ofResult, model, Point.ofCoordinates,
      if_pos (contains_of_decodeCompressed model)]
    rfl
  · rw [model, if_neg root, if_neg root]
    rfl

theorem guardedDecode_eq (data : Bytes) : guardedDecode data = ofResult (decode data) := by
  cases data with
  | nil => rfl
  | cons marker body =>
    rw [guardedDecode, decode_cons, List.head?_cons]
    dsimp only
    have full : (marker :: body).length = 65 ↔ body.length = 64 := Nat.succ_inj
    have short : (marker :: body).length = 33 ↔ body.length = 32 := Nat.succ_inj
    simp only [full, short]
    split
    · rename_i matched
      exact guardedDecodeFull_eq matched.2
    split
    · exact guardedDecodeCompressed_eq _ body
    · rfl

end Sec

/-! ## Checks -/

theorem Secp256k1.exists_ofGroup {p : Point} (on : p.IsOn curve) : ∃ g : Group, p = .ofGroup g := by
  rw [curve_eq] at on
  obtain rfl | ⟨x, y, equation, rfl⟩ := Point.isOn_ofZMod_iff.mp on
  · exact ⟨0, rfl⟩
  · exact ⟨.some x y (nonsingular equation), rfl⟩

/-- Multiples and sums of points of secp256k1 exist, so that the arithmetic does not refuse them. -/
theorem Point.verify_isOn {p : Point} (on : p.IsOn Secp256k1.curve) (sig : Signature) (z : Nat) :
    ∃ accepted : Bool, p.verify sig z = .ok (if accepted then .accepted else .refused) := by
  obtain ⟨g, rfl⟩ := Secp256k1.exists_ofGroup on
  have total (u v : Nat) :
      ∃ h : Secp256k1.Group, combination (.ofGroup g) u v = .ok (.ofGroup h) := by
    rw [combination, Secp256k1.scalarMul_generator, ok_bind, Secp256k1.scalarMul_ofGroup, ok_bind,
      Point.add_ofGroup Secp256k1.fieldPrime_odd]
    exact ⟨_, rfl⟩
  unfold verify
  split
  · dsimp only
    obtain ⟨h, sum⟩ := total (z * inverseModOrder sig.s % Secp256k1.order)
      (sig.r * inverseModOrder sig.s % Secp256k1.order)
    rw [sum]
    cases h with
    | zero => exact ⟨false, rfl⟩
    | some x y nonsingular =>
      refine ⟨decide (x.val % Secp256k1.order = sig.r), ?_⟩
      simp only [decide_eq_true_eq]
      rfl
  · exact ⟨false, rfl⟩

theorem Guarded.Follows.mapM {ε α δ : Type} {xs : List δ} {k : δ → Guarded ε α}
    {m : δ → Traced (Fault ε) α} (each : ∀ x, Follows id (k x) (m x)) :
    Follows id (xs.mapM k) (xs.mapM m) := by
  induction xs with
  | nil => exact follows_pure (f := id) []
  | cons x xs ih =>
    rw [List.mapM_cons, List.mapM_cons]
    exact (each x).bind fun a _ => ih.bind fun as _ => follows_pure (f := id) (a :: as)

theorem Pile.takeCounted_reverse (limit : Nat) (s : Stack) :
    SignatureCheck.takeCountedOnPile limit s.reverse =
      ofResult ((SignatureCheck.takeCounted limit s).map fun r => (r.1, r.2.reverse)) := by
  cases s with
  | nil => rfl
  | cons item s =>
    rw [SignatureCheck.takeCountedOnPile, popNumber_reverse_cons, SignatureCheck.takeCounted,
      Stack.popNumber, bind_assoc]
    refine ofResult_bind fun count _ => ?_
    rw [pure_bind]
    dsimp only
    by_cases outside : count < 0 ∨ (limit : Int) < count
    · rw [if_pos outside, if_pos outside]
      rfl
    rw [if_neg outside, if_neg outside, require_reverse]
    by_cases few : s.length < count.toNat
    · rw [if_pos few, if_pos (by omega)]
      rfl
    · have front : s.reverse.take (s.length - count.toNat) = (s.drop count.toNat).reverse := by
        rw [List.take_reverse, Nat.sub_sub_self (by omega)]
      have back : s.reverse.drop (s.length - count.toNat) = (s.take count.toNat).reverse := by
        rw [List.drop_reverse, Nat.sub_sub_self (by omega)]
      rw [if_neg few, ok_bind, List.length_reverse, difference_of_le (by omega), ok_bind,
        splitAt_of_le (by rw [List.length_reverse]; omega), ok_bind, if_neg (by omega), front, back]
      rfl

namespace SignatureCheck

variable {z : Nat} {p : Point} {keys : List Point} {sig : Signature}

theorem follows_readKey (item : Bytes) : Follows id (guardedReadKey item) (readKey item) := by
  rw [guardedReadKey, Sec.guardedDecode_eq, readKey]
  cases Sec.decode item with
  | ok p => exact follows_pure (f := id) p
  | error e => exact ⟨rfl, fun _ => by simp⟩

theorem isOn_of_readKey {item : Bytes} (read : (readKey item).result = .ok p) :
    p.IsOn Secp256k1.curve := by
  unfold readKey at read
  split at read
  · rename_i q decoded
    cases read
    exact (Sec.encode_of_decode decoded).1
  · cases read

theorem follows_readSignature (item : Bytes) :
    Follows id (guardedReadSignature item) (readSignature item) := by
  rw [guardedReadSignature, readSignature]
  cases ends : item.getLast? with
  | none =>
    rw [if_pos (List.getLast?_eq_none_iff.mp ends)]
    exact follows_fail _
  | some last =>
    have nonempty : item ≠ [] := by
      rintro rfl
      cases ends
    rw [if_neg nonempty]
    dsimp only
    cases Der.decode item.dropLast with
    | ok sig => exact follows_pure (f := id) sig
    | error e => exact ⟨rfl, fun _ => by simp⟩

theorem follows_accepts (on : p.IsOn Secp256k1.curve) :
    Follows id (guardedAccepts z p sig) (accepts z p sig) := by
  obtain ⟨accepted, given⟩ := p.verify_isOn on sig z
  rw [guardedAccepts, accepts, given]
  cases accepted with
  | true => exact follows_pure (f := id) true
  | false => exact follows_pure (f := id) false

theorem follows_single (s : Stack) :
    Follows List.reverse (singleOnPile z s.reverse) (single z s) := by
  rcases s with _ | ⟨key, _ | ⟨item, s⟩⟩
  · exact follows_fail _
  · exact follows_fail _
  · rw [singleOnPile, Pile.require_reverse, if_neg (by simp), ok_bind, Pile.pop_reverse_cons,
      ok_bind]
    dsimp only
    rw [Pile.pop_reverse_cons, ok_bind, single]
    refine (follows_readKey key).bind fun p read => ?_
    refine (follows_readSignature item).bind fun sig _ => ?_
    refine (follows_accepts (isOn_of_readKey read)).bind fun accepted _ => ?_
    rw [id, Pile.push_reverse]
    exact follows_pure _

/-- The keys that are left over are some of those that there were. -/
theorem mem_of_keysAfter? {others : List Point}
    (found : (keysAfter? z sig keys).result = .ok (some others)) (left : p ∈ others) : p ∈ keys := by
  induction keys with
  | nil => cases found
  | cons q keys ih =>
    obtain ⟨accepted, -, found⟩ := Traced.result_bind_eq_ok_iff.mp found
    cases accepted with
    | true =>
      cases found
      exact List.mem_cons_of_mem q left
    | false => exact List.mem_cons_of_mem q (ih found)

theorem follows_keysAfter? (on : ∀ p ∈ keys, p.IsOn Secp256k1.curve) :
    Follows id (guardedKeysAfter? z sig keys) (keysAfter? z sig keys) := by
  induction keys with
  | nil => exact follows_pure (f := id) none
  | cons p keys ih =>
    obtain ⟨first, others⟩ := List.forall_mem_cons.mp on
    refine (follows_accepts first).bind fun accepted _ => ?_
    cases accepted with
    | true => exact follows_pure (f := id) (some keys)
    | false => exact ih others

theorem follows_matchInOrder (sigs : List Signature) (on : ∀ p ∈ keys, p.IsOn Secp256k1.curve) :
    Follows id (guardedMatchInOrder z sigs keys) (matchInOrder z sigs keys) := by
  induction sigs generalizing keys with
  | nil => exact follows_pure (f := id) true
  | cons sig sigs ih =>
    refine (follows_keysAfter? on).bind fun left found => ?_
    cases left with
    | none => exact follows_pure (f := id) false
    | some others => exact ih fun p member => on p (mem_of_keysAfter? found member)

theorem isOn_of_mapM_readKey {items : List Bytes} (read : (items.mapM readKey).result = .ok keys) :
    ∀ p ∈ keys, p.IsOn Secp256k1.curve := by
  induction items generalizing keys with
  | nil =>
    cases read
    exact fun p member => nomatch member
  | cons item items ih =>
    rw [List.mapM_cons] at read
    obtain ⟨p, first, read⟩ := Traced.result_bind_eq_ok_iff.mp read
    obtain ⟨others, rest, same⟩ := Traced.result_bind_eq_ok_iff.mp read
    cases same
    exact List.forall_mem_cons.mpr ⟨isOn_of_readKey first, ih rest⟩

theorem follows_multiple (s : Stack) :
    Follows List.reverse (multipleOnPile z s.reverse) (multiple z s) := by
  refine (follows_lift (Pile.takeCounted_reverse maxKeys s)).bind fun ⟨keys, s⟩ _ => ?_
  refine (follows_lift (Pile.takeCounted_reverse keys.length s)).bind fun ⟨sigs, s⟩ _ => ?_
  cases s with
  | nil => exact follows_fail _
  | cons _ s =>
    dsimp only
    rw [Pile.pop_reverse_cons, ok_bind]
    refine (Follows.mapM follows_readKey).bind fun points read => ?_
    refine (Follows.mapM follows_readSignature).bind fun signatures _ => ?_
    refine (follows_matchInOrder signatures (isOn_of_mapM_readKey read)).bind fun matched _ => ?_
    rw [id, Pile.push_reverse]
    exact follows_pure _

end SignatureCheck

theorem SignatureInstruction.follows_run (i : SignatureInstruction) (z : Nat) (s : Stack) :
    Follows List.reverse (i.onPile z s.reverse) (i.run z s) := by
  have demanded (demand : Bool) (t : Stack) :
      Follows List.reverse (if demand then Pile.verify t.reverse else pure t.reverse)
        (if demand then liftM t.verify else pure t) := by
    cases demand with
    | true => exact follows_lift (Pile.verify_reverse t)
    | false => exact follows_pure t
  cases i with
  | single demand => exact (SignatureCheck.follows_single s).bind fun t _ => demanded demand t
  | multiple demand => exact (SignatureCheck.follows_multiple s).bind fun t _ => demanded demand t

end CoinScript
