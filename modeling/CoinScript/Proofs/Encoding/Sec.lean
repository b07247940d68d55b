import CoinScript.Encoding.Sec
import CoinScript.Proofs.Curve.Addition
import CoinScript.Proofs.Curve.Generator
import CoinScript.Proofs.Encoding.Digits

/-!
# The two encodings of a point

Decoding accepts exactly what encoding produces. The full form is a matter of
digits. The compressed form takes a root of `x³ + 7` and corrects its parity,
which works because the modulus is `3` modulo `4` and because no point of the
curve has a vanishing second coordinate: `-7` is not a cube.
-/

namespace CoinScript

namespace Secp256k1

theorem fieldPrime_mod_four : fieldPrime % 4 = 3 := by decide

theorem fieldPrime_mod_two : fieldPrime % 2 = 1 := by decide

theorem fieldPrime_lt : fieldPrime < 256 ^ 32 := by decide

/-- The third part of the power that is one for all residues gives another value for `-7`. -/
theorem powMod_third : powMod (fieldPrime - 7) ((fieldPrime - 1) / 3) fieldPrime ≠ 1 := by
  decide +kernel

theorem y_ne_zero {x y : ZMod fieldPrime} (h : (weierstrass 0 7).Equation x y) : y ≠ 0 := by
  rintro rfl
  rw [equation_weierstrass] at h
  have cube : x ^ 3 = ((fieldPrime - 7 : Nat) : ZMod fieldPrime) := by
    rw [Nat.cast_sub (by decide), ZMod.natCast_self]
    push_cast
    linear_combination -h
  have nonzero : x ≠ 0 := by
    rintro rfl
    rw [zero_pow (by decide), eq_comm, ZMod.natCast_eq_zero_iff] at cube
    exact absurd cube (by decide)
  have power : ((fieldPrime - 7 : Nat) : ZMod fieldPrime) ^ ((fieldPrime - 1) / 3) = 1 := by
    rw [← cube, ← pow_mul, show 3 * ((fieldPrime - 1) / 3) = fieldPrime - 1 by decide]
    exact ZMod.pow_card_sub_one_eq_one nonzero
  exact powMod_third ((LucasEntry.powMod_eq_one_iff (by decide) _ _).mpr power)

theorem coordinate_eq_ok_iff {n : Nat} {x : FieldElement} :
    coordinate n = .ok x ↔ n < fieldPrime ∧ x = residue n := by
  rw [coordinate, FieldElement.ofNat_eq_ok_iff, FieldElement.eq_iff]
  constructor
  · rintro ⟨rfl, field⟩
    have below : x.num < fieldPrime := field ▸ x.num_lt
    exact ⟨below, (Nat.mod_eq_of_lt below).symm, field⟩
  · rintro ⟨below, same, field⟩
    exact ⟨same.trans (Nat.mod_eq_of_lt below), field⟩

theorem point_eq_ok_iff {x y : Nat} {P : Point} :
    point x y = .ok P ↔ x < fieldPrime ∧ y < fieldPrime ∧
      curve.contains (residue x) (residue y) = true ∧ P = .affine (residue x) (residue y) curve := by
  constructor
  · intro read
    obtain ⟨x', first, read⟩ := bind_eq_ok_iff.mp read
    obtain ⟨y', second, read⟩ := bind_eq_ok_iff.mp read
    obtain ⟨x_lt, rfl⟩ := coordinate_eq_ok_iff.mp (lift_eq_ok_iff.mp first)
    obtain ⟨y_lt, rfl⟩ := coordinate_eq_ok_iff.mp (lift_eq_ok_iff.mp second)
    unfold Point.ofCoordinates at read
    split at read
    · rename_i checked
      cases read
      exact ⟨x_lt, y_lt, checked, rfl⟩
    · cases read
  · rintro ⟨x_lt, y_lt, checked, rfl⟩
    unfold point
    rw [coordinate_eq_ok_iff.mpr ⟨x_lt, rfl⟩, coordinate_eq_ok_iff.mpr ⟨y_lt, rfl⟩]
    exact if_pos checked

/-- Coordinates pass the check of the curve as residue classes that satisfy its equation. -/
theorem contains_iff {x y : FieldElement} :
    curve.contains x y = true ↔ ∃ X Y : ZMod fieldPrime,
      (weierstrass 0 7).Equation X Y ∧ x = .ofZMod X ∧ y = .ofZMod Y := by
  have points := Point.isOn_ofZMod_iff (a := (0 : ZMod fieldPrime)) (b := 7)
    (P := .affine x y curve)
  rw [← curve_eq] at points
  constructor
  · intro checked
    obtain infinite | ⟨X, Y, equation, same⟩ := points.mp ⟨rfl, checked⟩
    · cases infinite
    · cases same
      exact ⟨X, Y, equation, rfl, rfl⟩
  · rintro ⟨X, Y, equation, rfl, rfl⟩
    exact (points.mpr (Or.inr ⟨X, Y, equation, rfl⟩)).2

end Secp256k1

namespace Sec

open Secp256k1 (fieldPrime curve residue)

theorem length_coordinateBytes (n : Nat) : (coordinateBytes n).length = 32 :=
  Bytes.length_ofNatBE 32 n

theorem toNatBE_coordinateBytes {n : Nat} (bound : n < fieldPrime) :
    Bytes.toNatBE (coordinateBytes n) = n :=
  Bytes.toNatBE_ofNatBE_of_lt (bound.trans Secp256k1.fieldPrime_lt)

theorem num_residue {n : Nat} (bound : n < fieldPrime) : (residue n).num = n :=
  Nat.mod_eq_of_lt bound

/-- Correcting the parity of the power `(p + 1) / 4` finds the root of that parity, if there
is a root at all. -/
theorem parity_root_iff {square root Y : ZMod fieldPrime} (even : Bool) (nonzero : square ≠ 0)
    (power : root = square ^ ((fieldPrime + 1) / 4)) :
    (root * root = square ∧ Y = if (FieldElement.ofZMod root).isEven = even then root else -root) ↔
      Y * Y = square ∧ (FieldElement.ofZMod Y).isEven = even := by
  have parity {Z : ZMod fieldPrime} (squared : Z * Z = square) :
      (FieldElement.ofZMod (-Z)).isEven = !(FieldElement.ofZMod Z).isEven := by
    refine FieldElement.isEven_neg Secp256k1.fieldPrime_mod_two ?_
    rintro rfl
    exact nonzero (by rw [← squared, mul_zero])
  -- The two roots have different parities, and the power is one of them.
  constructor
  · rintro ⟨squared, rfl⟩
    split
    · rename_i same
      exact ⟨squared, same⟩
    · rename_i other
      refine ⟨by rw [neg_mul_neg, squared], ?_⟩
      rw [parity squared]
      exact (Bool.eq_not_of_ne (Ne.symm other)).symm
  · rintro ⟨squared, rfl⟩
    have roots : root = Y ∨ root = -Y := by
      rw [power, ← squared]
      exact FieldElement.pow_quarter_sq Secp256k1.fieldPrime_mod_four Y
    rcases roots with rfl | rfl
    · rw [if_pos rfl]
      exact ⟨squared, rfl⟩
    · rw [parity squared, if_neg (Bool.not_ne_self _), neg_neg]
      exact ⟨by rw [neg_mul_neg, squared], rfl⟩

theorem decodeCompressed_eq {even : Bool} {x : Nat} (bound : x < fieldPrime) :
    decodeCompressed even x =
      let square : ZMod fieldPrime := x * x * x + 7
      let root := square ^ ((fieldPrime + 1) / 4)
      if root * root = square then
        .ok (.affine (residue x)
          (.ofZMod (if (FieldElement.ofZMod root).isEven = even then root else -root)) curve)
      else .error .xNotOnCurve := by
  have constant : curve.b.num = 7 := by decide
  unfold decodeCompressed
  rw [if_neg (Nat.not_le_of_lt bound)]
  simp only [Secp256k1.residue_eq, FieldElement.sqrt_ofZMod, FieldElement.residue_ofZMod,
    FieldElement.ofZMod_inj, FieldElement.neg_ofZMod, constant, FieldElement.num_ofZMod,
    Nat.cast_mul, Nat.cast_add, Nat.cast_ofNat, ZMod.natCast_zmod_val, apply_ite FieldElement.ofZMod]

/-- The compressed form determines the point by its first coordinate and a parity. -/
theorem decodeCompressed_eq_ok_iff {even : Bool} {x : Nat} {P : Point} :
    decodeCompressed even x = .ok P ↔ x < fieldPrime ∧ ∃ Y : ZMod fieldPrime,
      (weierstrass 0 7).Equation (x : ZMod fieldPrime) Y ∧
        (FieldElement.ofZMod Y).isEven = even ∧ P = .affine (residue x) (.ofZMod Y) curve := by
  by_cases large : fieldPrime ≤ x
  · unfold decodeCompressed
    rw [if_pos large]
    exact ⟨fun h => (nomatch h), fun h => absurd h.1 (Nat.not_lt_of_le large)⟩
  have bound := Nat.lt_of_not_le large
  have nonzero : (x : ZMod fieldPrime) * x * x + 7 ≠ 0 := by
    intro zero
    exact Secp256k1.y_ne_zero (y := 0) (equation_weierstrass.mpr
      (by rw [zero_mul (x : ZMod fieldPrime), zero_add, zero, mul_zero])) rfl
  rw [decodeCompressed_eq bound]
  constructor
  · intro read
    dsimp only at read
    split at read
    · rename_i squared
      cases read
      obtain ⟨equation, parity⟩ := (parity_root_iff even nonzero rfl).mp ⟨squared, rfl⟩
      refine ⟨bound, _, ?_, parity, rfl⟩
      rw [equation_weierstrass, equation, zero_mul, zero_add]
    · cases read
  · rintro ⟨-, Y, equation, parity, rfl⟩
    rw [equation_weierstrass, zero_mul, zero_add] at equation
    obtain ⟨squared, same⟩ := (parity_root_iff even nonzero rfl).mpr ⟨equation, parity⟩
    dsimp only
    rw [if_pos squared, ← same]

theorem encode_compressed (x y : FieldElement) (c : Curve) :
    encode (.affine x y c) true =
      .ok ((if y.isEven then 0x02 else 0x03) :: coordinateBytes x.num) := rfl

theorem encode_full (x y : FieldElement) (c : Curve) :
    encode (.affine x y c) false =
      .ok (0x04 :: coordinateBytes x.num ++ coordinateBytes y.num) := rfl

theorem decode_cons (marker : UInt8) (body : Bytes) :
    decode (marker :: body) =
      if marker = 0x04 ∧ body.length = 64 then decodeFull body
      else if (marker = 0x02 ∨ marker = 0x03) ∧ body.length = 32 then
        decodeCompressed (marker = 0x02) (Bytes.toNatBE body)
      else .error (.unsupported marker (marker :: body).length) := rfl

theorem decode_full {body : Bytes} (length : body.length = 64) :
    decode (0x04 :: body) = decodeFull body :=
  if_pos ⟨rfl, length⟩

theorem decode_compressed {even : Bool} {body : Bytes} (length : body.length = 32) :
    decode ((if even then 0x02 else 0x03) :: body) =
      decodeCompressed even (Bytes.toNatBE body) := by
  cases even <;> simp [decode_cons, length]

theorem decodeFull_eq_ok_iff {body : Bytes} {P : Point} :
    decodeFull body = .ok P ↔
      Secp256k1.point (Bytes.toNatBE (body.take 32)) (Bytes.toNatBE (body.drop 32)) = .ok P :=
  mapError_eq_ok_iff

/-- Decoding what was written gives the point back. -/
theorem decode_of_encode {P : Point} (on : P.IsOn curve) {compressed : Bool} {data : Bytes}
    (encoded : encode P compressed = .ok data) : decode data = .ok P := by
  cases P with
  | infinity c => cases encoded
  | affine x y c =>
    obtain ⟨rfl, checked⟩ := on
    obtain ⟨X, Y, equation, rfl, rfl⟩ := Secp256k1.contains_iff.mp checked
    have x_lt : X.val < fieldPrime := ZMod.val_lt X
    have y_lt : Y.val < fieldPrime := ZMod.val_lt Y
    have x_eq : residue X.val = .ofZMod X := by
      rw [Secp256k1.residue_eq, ZMod.natCast_zmod_val]
    have y_eq : residue Y.val = .ofZMod Y := by
      rw [Secp256k1.residue_eq, ZMod.natCast_zmod_val]
    cases compressed with
    | true =>
      cases encoded
      rw [decode_compressed (length_coordinateBytes _), FieldElement.num_ofZMod,
        toNatBE_coordinateBytes x_lt, decodeCompressed_eq_ok_iff]
      refine ⟨x_lt, Y, ?_, rfl, by rw [x_eq]⟩
      rwa [ZMod.natCast_zmod_val]
    | false =>
      cases encoded
      have halves (front rest : Bytes) (length : front.length = 32) :
          (front ++ rest).take 32 = front ∧ (front ++ rest).drop 32 = rest :=
        ⟨List.take_left' length, List.drop_left' length⟩
      obtain ⟨front, rest⟩ := halves (coordinateBytes X.val) (coordinateBytes Y.val)
        (length_coordinateBytes _)
      rw [List.cons_append, decode_full (by simp [length_coordinateBytes]), decodeFull_eq_ok_iff,
        FieldElement.num_ofZMod, FieldElement.num_ofZMod, front, rest,
        toNatBE_coordinateBytes x_lt, toNatBE_coordinateBytes y_lt, Secp256k1.point_eq_ok_iff,
        x_eq, y_eq]
      exact ⟨x_lt, y_lt, checked, rfl⟩

/-- What decoding accepts is the encoding of the point it gives. -/
theorem encode_of_decode {data : Bytes} {P : Point} (decoded : decode data = .ok P) :
    P.IsOn curve ∧ encode P (data.length == 33) = .ok data := by
  cases data with
  | nil => cases decoded
  | cons marker body =>
    rw [decode_cons] at decoded
    split at decoded
    · rename_i full
      obtain ⟨rfl, length⟩ := full
      obtain ⟨x_lt, y_lt, checked, rfl⟩ :=
        Secp256k1.point_eq_ok_iff.mp (decodeFull_eq_ok_iff.mp decoded)
      refine ⟨⟨rfl, checked⟩, ?_⟩
      have front : (body.take 32).length = 32 := by rw [List.length_take, length]; rfl
      have rest : (body.drop 32).length = 32 := by rw [List.length_drop, length]
      have long : (((0x04 : UInt8) :: body).length == 33) = false := by
        rw [List.length_cons, length]
        rfl
      rw [long, encode_full, num_residue x_lt, num_residue y_lt, List.cons_append, coordinateBytes,
        coordinateBytes, Bytes.ofNatBE_toNatBE front, Bytes.ofNatBE_toNatBE rest,
        List.take_append_drop]
    split at decoded
    · rename_i short
      obtain ⟨named, length⟩ := short
      obtain ⟨x_lt, Y, equation, parity, rfl⟩ := decodeCompressed_eq_ok_iff.mp decoded
      refine ⟨⟨rfl, Secp256k1.contains_iff.mpr ⟨_, Y, equation, Secp256k1.residue_eq _, rfl⟩⟩, ?_⟩
      have written : (if (marker = 0x02 : Bool) then 0x02 else 0x03) = marker := by
        rcases named with rfl | rfl <;> rfl
      have short : ((marker :: body).length == 33) = true := by
        rw [List.length_cons, length]
        rfl
      rw [short, encode_compressed, num_residue x_lt, parity, written, coordinateBytes,
        Bytes.ofNatBE_toNatBE length]
    · cases decoded

/-- Decoding accepts the affine points of secp256k1, each in its own two encodings, and nothing
else. -/
theorem decode_encode_inverse :
    (∀ (data : Bytes) (P : Point), decode data = .ok P →
        ∃ x y, P = .affine x y curve ∧ curve.contains x y = true ∧
          x.num < fieldPrime ∧ y.num < fieldPrime ∧ encode P (data.length == 33) = .ok data) ∧
      ∀ (x y : FieldElement), curve.contains x y = true → ∀ compressed : Bool,
        ∃ data, encode (.affine x y curve) compressed = .ok data ∧
          decode data = .ok (.affine x y curve) := by
  constructor
  · intro data P decoded
    obtain ⟨on, encoded⟩ := encode_of_decode decoded
    cases P with
    | infinity c => cases encoded
    | affine x y c =>
      obtain ⟨rfl, checked⟩ := on
      obtain ⟨X, Y, -, rfl, rfl⟩ := Secp256k1.contains_iff.mp checked
      exact ⟨_, _, rfl, checked, ZMod.val_lt X, ZMod.val_lt Y, encoded⟩
  · intro x y checked compressed
    have encoded : ∃ data, encode (.affine x y curve) compressed = .ok data := by
      cases compressed with
      | true => exact ⟨_, encode_compressed x y curve⟩
      | false => exact ⟨_, encode_full x y curve⟩
    obtain ⟨data, encoded⟩ := encoded
    have on : (Point.affine x y curve).IsOn curve := ⟨rfl, checked⟩
    exact ⟨data, encoded, decode_of_encode on encoded⟩

/-- The compressed form of the generator, read back and written again. -/
theorem decode_encode_inverse_generator :
    ∃ data, encode Secp256k1.generator true = .ok data ∧ decode data = .ok Secp256k1.generator ∧
      encode Secp256k1.generator (data.length == 33) = .ok data := by
  obtain ⟨accepted, written⟩ := decode_encode_inverse
  obtain ⟨data, encoded, decoded⟩ := written (residue Secp256k1.generatorX)
    (residue Secp256k1.generatorY) (by decide +kernel) true
  obtain ⟨x, y, -, -, -, -, again⟩ := accepted data _ decoded
  exact ⟨data, encoded, decoded, again⟩

end Sec

end CoinScript
