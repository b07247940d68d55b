import CoinScript.Proofs.Script.Numbers

/-!
# Numbers in their shortest form

A number of sixty-four bits is read back from what is written of it, with the
one exception of the least one, whose sign takes a ninth byte. Of all the byte
strings with the value of a number, the one that is written is the shortest,
and there is no other one of its length. It can be told by its last two bytes.
An item is true if and only if its value is not zero.
-/

namespace CoinScript

namespace Number

variable {b c d : UInt8} {a bs : Bytes} {n : Int} {negative : Bool}

/-- The value of a byte string as one number, low byte first, with its highest bit for the sign. -/
def signMagnitude (bs : Bytes) : Int :=
  if Bytes.toNatLE bs < 2 ^ (8 * bs.length - 1) then Bytes.toNatLE bs
  else 2 ^ (8 * bs.length - 1) - (Bytes.toNatLE bs : Int)

/-- The last byte is needed: it has a bit beside that of the sign, or it keeps the sign apart from the
byte before it. -/
def Minimal (bs : Bytes) : Prop :=
  ∀ last ∈ bs.getLast?, last.toNat % 128 ≠ 0 ∨ ∃ before ∈ bs.dropLast.getLast?, 0x80 ≤ before

instance : DecidablePred Minimal := fun bs =>
  haveI := Option.decidableExistsMem (p := (0x80 ≤ ·)) bs.dropLast.getLast?
  Option.decidableForallMem bs.getLast?

/-! ## Values -/

theorem magnitude_cons (nonempty : bs ≠ []) :
    magnitude (b :: bs) = b.toNat + 256 * magnitude bs := by
  cases bs with
  | nil => exact absurd rfl nonempty
  | cons c bs => rfl

theorem isNegative_cons (nonempty : bs ≠ []) : isNegative (b :: bs) = isNegative bs := by
  cases bs with
  | nil => exact absurd rfl nonempty
  | cons c bs => rfl

/-- The sign adds the highest bit to the magnitude. -/
theorem toNatLE_cons_eq (b : UInt8) (bs : Bytes) : Bytes.toNatLE (b :: bs) =
    magnitude (b :: bs) + if isNegative (b :: bs) then 128 * 256 ^ bs.length else 0 := by
  induction bs generalizing b with
  | nil =>
    have bound := b.toNat_lt
    simp only [Bytes.toNatLE, magnitude, isNegative, decide_eq_true_eq, UInt8.le_iff_toNat_le,
      UInt8.reduceToNat, List.length_nil, Nat.pow_zero]
    split <;> omega
  | cons c bs ih =>
    rw [Bytes.toNatLE, ih, magnitude_cons (List.cons_ne_nil c bs),
      isNegative_cons (List.cons_ne_nil c bs), List.length_cons, Nat.pow_succ]
    split <;> omega

theorem value_eq_signMagnitude (bs : Bytes) : value bs = signMagnitude bs := by
  cases bs with
  | nil => rfl
  | cons b bs =>
    have small := two_magnitude_lt (b :: bs)
    have whole := toNatLE_cons_eq b bs
    have half : 2 ^ (8 * (b :: bs).length - 1) = 128 * 256 ^ bs.length := by
      have exponent : 8 * (b :: bs).length - 1 = 7 + 8 * bs.length := by
        rw [List.length_cons]
        omega
      rw [exponent, Nat.pow_add, Nat.pow_mul]
    rw [List.length_cons, Nat.pow_succ] at small
    have half' : (2 : Int) ^ (8 * (b :: bs).length - 1) = (128 * 256 ^ bs.length : Nat) := by
      rw [← half]
      norm_cast
    rw [signMagnitude, half', half, whole, value]
    cases isNegative (b :: bs) with
    | true =>
      rw [if_pos rfl, if_pos rfl, if_neg (by omega)]
      omega
    | false =>
      rw [if_neg Bool.false_ne_true, if_neg Bool.false_ne_true, if_pos (by omega)]
      rfl

/-- A value other than zero is that of one byte string of every length. -/
theorem eq_of_value_eq (length : a.length = bs.length) (nonzero : value a ≠ 0)
    (same : value a = value bs) : a = bs := by
  rw [← Bytes.ofNatLE_toNatLE a, ← Bytes.ofNatLE_toNatLE bs, length]
  refine congrArg _ ?_
  cases a with
  | nil => exact absurd rfl nonzero
  | cons b a =>
    cases bs with
    | nil => cases length
    | cons c bs =>
      unfold value at nonzero same
      rw [toNatLE_cons_eq, toNatLE_cons_eq, Nat.succ.inj length]
      cases negative : isNegative (b :: a) <;> cases negative' : isNegative (c :: bs) <;>
        simp only [negative, negative', if_true, if_false, Bool.false_eq_true] at nonzero same ⊢ <;>
        omega

theorem truthy_iff_magnitude : truthy bs = true ↔ magnitude bs ≠ 0 := by
  fun_induction truthy bs with
  | case1 => exact iff_of_false nofun fun nonzero => nonzero rfl
  | case2 b =>
    have bound := b.toNat_lt
    rw [Bool.and_eq_true, bne_iff_ne, bne_iff_ne, magnitude, ne_eq, ne_eq, ← UInt8.toNat_inj,
      ← UInt8.toNat_inj]
    simp only [UInt8.reduceToNat]
    omega
  | case3 b c bs ih =>
    rw [Bool.or_eq_true, bne_iff_ne, ih, magnitude, ne_eq, ← UInt8.toNat_inj]
    simp only [UInt8.reduceToNat]
    omega

/-- Neither of the two zeros is true. -/
theorem truthy_iff_value : truthy bs = true ↔ value bs ≠ 0 := by
  rw [truthy_iff_magnitude, ← natAbs_value, Int.natAbs_ne_zero]

/-! ## Writing and reading back -/

theorem sign_ne_nil (nonempty : bs ≠ []) : sign negative bs ≠ [] := by
  fun_induction sign negative bs with
  | case1 => exact nonempty
  | case2 | case3 | case4 => exact List.cons_ne_nil _ _

theorem sign_cons (nonempty : bs ≠ []) : sign negative (b :: bs) = b :: sign negative bs := by
  cases bs with
  | nil => exact absurd rfl nonempty
  | cons c bs => rfl

theorem toNat_add_signBit (small : b < 0x80) : (b + 0x80).toNat = b.toNat + 128 := by
  have low : b.toNat < 128 := UInt8.lt_iff_toNat_lt.mp small
  rw [UInt8.toNat_add]
  exact Nat.mod_eq_of_lt (Nat.add_lt_add_right low 128)

theorem magnitude_sign (negative : Bool) (bs : Bytes) :
    magnitude (sign negative bs) = Bytes.toNatLE bs := by
  fun_induction sign negative bs with
  | case1 => rfl
  | case2 b small =>
    have low : b.toNat < 128 := UInt8.lt_iff_toNat_lt.mp small
    cases negative with
    | true =>
      rw [if_pos rfl, magnitude, toNat_add_signBit small, Bytes.toNatLE, Bytes.toNatLE]
      omega
    | false =>
      rw [if_neg Bool.false_ne_true, magnitude, Bytes.toNatLE, Bytes.toNatLE]
      omega
  | case3 b large => cases negative <;> rfl
  | case4 b c bs ih =>
    rw [magnitude_cons (sign_ne_nil (List.cons_ne_nil c bs)), ih]
    rfl

theorem isNegative_sign (nonempty : bs ≠ []) : isNegative (sign negative bs) = negative := by
  fun_induction sign negative bs with
  | case1 => exact absurd rfl nonempty
  | case2 b small =>
    have low : b.toNat < 128 := UInt8.lt_iff_toNat_lt.mp small
    cases negative with
    | true =>
      rw [if_pos rfl, isNegative, decide_eq_true_eq, UInt8.le_iff_toNat_le, toNat_add_signBit small]
      exact Nat.le_add_left 128 b.toNat
    | false =>
      rw [if_neg Bool.false_ne_true, isNegative, decide_eq_false_iff_not, UInt8.not_le]
      exact small
  | case3 b large => cases negative <;> rfl
  | case4 b c bs ih =>
    rw [isNegative_cons (sign_ne_nil (List.cons_ne_nil c bs)), ih (List.cons_ne_nil c bs)]

/-- What is written of a number has the value of the number, whatever its size. -/
theorem value_encode (n : Int) : value (encode n) = n := by
  by_cases zero : n = 0
  · rw [zero, encode, Int.natAbs_zero, Bytes.digitsLE_zero]
    rfl
  · have digits : Bytes.digitsLE n.natAbs ≠ [] :=
      Bytes.digitsLE_ne_nil (Int.natAbs_pos.mpr zero)
    rw [value, encode, magnitude_sign, isNegative_sign digits, Bytes.toNatLE_digitsLE]
    by_cases below : n < 0
    · rw [if_pos (decide_eq_true below)]
      omega
    · rw [if_neg (by simpa using below)]
      omega

/-! ## Lengths -/

theorem minimal_nil : Minimal [] := nofun

theorem minimal_singleton : Minimal [b] ↔ b.toNat % 128 ≠ 0 := by
  simp [Minimal]

theorem minimal_pair : Minimal [b, c] ↔ c.toNat % 128 ≠ 0 ∨ 0x80 ≤ b := by
  simp [Minimal]

theorem minimal_cons : Minimal (b :: c :: d :: bs) ↔ Minimal (c :: d :: bs) := by
  simp only [Minimal, List.getLast?_cons_cons, List.dropLast_cons_cons]

/-- A byte in front leaves what is minimal so, and it makes a lone byte for the sign necessary if it has
the highest bit. -/
theorem minimal_cons_cons : Minimal (b :: c :: bs) ↔
    Minimal (c :: bs) ∨ magnitude (c :: bs) = 0 ∧ bs = [] ∧ 0x80 ≤ b := by
  cases bs with
  | nil =>
    rw [minimal_pair, minimal_singleton, magnitude]
    tauto
  | cons d bs => simp [minimal_cons]

theorem length_sign_byte (negative : Bool) (b : UInt8) :
    (sign negative (Bytes.digitsLE b.toNat)).length =
      if b = 0x00 then 0 else if b < 0x80 then 1 else 2 := by
  by_cases zero : b = 0x00
  · rw [if_pos zero, zero, show (0x00 : UInt8).toNat = 0 from rfl, Bytes.digitsLE_zero]
    rfl
  · have positive : 0 < b.toNat + 256 * 0 :=
      Nat.pos_of_ne_zero fun same => zero (UInt8.toNat_inj.mp same)
    have one : Bytes.digitsLE b.toNat = [b] := by
      rw [← Bytes.digitsLE_zero]
      exact Bytes.digitsLE_cons positive
    rw [if_neg zero, one, sign]
    split <;> rfl

/-- One byte is enough for a small magnitude with its sign. -/
theorem length_sign_small {m : Nat} (positive : 0 < m) (small : m < 128) :
    (sign negative (Bytes.digitsLE m)).length = 1 := by
  have byte : m.toUInt8.toNat = m := by
    rw [Bytes.toNat_toUInt8]
    omega
  have nonzero : m.toUInt8 ≠ 0x00 := by
    rw [ne_eq, ← UInt8.toNat_inj, byte]
    exact positive.ne'
  have low : m.toUInt8 < 0x80 := by
    rw [UInt8.lt_iff_toNat_lt, byte]
    exact small
  rw [← byte, length_sign_byte, if_neg nonzero, if_pos low]

/-- The magnitude of a lone byte takes up that byte, unless it is zero. -/
theorem length_sign_magnitude_singleton (negative : Bool) (b : UInt8) :
    (sign negative (Bytes.digitsLE (magnitude [b]))).length ≤ 1 ∧
      ((sign negative (Bytes.digitsLE (magnitude [b]))).length = 1 ↔ Minimal [b]) := by
  rw [minimal_singleton, magnitude]
  by_cases zero : b.toNat % 128 = 0
  · rw [zero, Bytes.digitsLE_zero]
    exact ⟨Nat.zero_le 1, iff_of_false nofun fun nonzero => nonzero rfl⟩
  · have one : (sign negative (Bytes.digitsLE (b.toNat % 128))).length = 1 :=
      length_sign_small (Nat.pos_of_ne_zero zero) (Nat.mod_lt _ (by decide))
    exact ⟨one.le, iff_of_true one zero⟩

/-- A byte that only zeros follow takes up two bytes if it leaves no bit for the sign. -/
theorem length_sign_byte_le (negative : Bool) (b c : UInt8) (bs : Bytes) :
    (sign negative (Bytes.digitsLE b.toNat)).length ≤ (b :: c :: bs).length ∧
      ((sign negative (Bytes.digitsLE b.toNat)).length = (b :: c :: bs).length ↔
        bs = [] ∧ 0x80 ≤ b) := by
  rw [length_sign_byte, List.length_cons, List.length_cons, ← UInt8.not_lt,
    ← List.length_eq_zero_iff]
  split
  · rename_i empty
    rw [empty]
    exact ⟨Nat.zero_le _, iff_of_false nofun fun signed => signed.2 (by decide)⟩
  split
  · rename_i small
    exact ⟨Nat.le_add_left 1 _, iff_of_false (by omega) fun signed => signed.2 small⟩
  · rename_i large
    rw [and_iff_left large]
    exact ⟨Nat.le_add_left 2 _, by omega⟩

/-- Writing the magnitude of a byte string takes no more bytes than the string has, and as many
exactly if the string is minimal. -/
theorem length_sign_magnitude (negative : Bool) (bs : Bytes) :
    (sign negative (Bytes.digitsLE (magnitude bs))).length ≤ bs.length ∧
      ((sign negative (Bytes.digitsLE (magnitude bs))).length = bs.length ↔ Minimal bs) := by
  induction bs with
  | nil =>
    rw [magnitude, Bytes.digitsLE_zero]
    exact ⟨Nat.le_refl 0, iff_of_true rfl minimal_nil⟩
  | cons b bs ih =>
    rcases bs with _ | ⟨c, bs⟩
    · exact length_sign_magnitude_singleton negative b
    rw [magnitude_cons (List.cons_ne_nil c bs), minimal_cons_cons]
    obtain ⟨short, exact⟩ := ih
    rcases Nat.eq_zero_or_pos (magnitude (c :: bs)) with zero | positive
    · -- behind the first byte there is nothing to write but, maybe, the sign
      rw [zero, Bytes.digitsLE_zero] at exact
      have rest : ¬Minimal (c :: bs) := exact.not.mp (Nat.succ_ne_zero bs.length).symm
      rw [zero, or_iff_right rest, and_iff_right rfl, Nat.mul_zero, Nat.add_zero]
      exact length_sign_byte_le negative b c bs
    · have digits : Bytes.digitsLE (b.toNat + 256 * magnitude (c :: bs)) =
          b :: Bytes.digitsLE (magnitude (c :: bs)) := Bytes.digitsLE_cons (by omega)
      rw [digits, sign_cons (Bytes.digitsLE_ne_nil positive), List.length_cons, List.length_cons,
        Nat.succ_inj, exact]
      refine ⟨Nat.succ_le_succ short, ?_⟩
      exact ⟨Or.inl, fun minimal => minimal.resolve_right fun empty => positive.ne' empty.1⟩

theorem length_encode_value_le (bs : Bytes) : (encode (value bs)).length ≤ bs.length := by
  rw [encode, natAbs_value]
  exact (length_sign_magnitude _ bs).1

theorem length_encode_value_eq_iff : (encode (value bs)).length = bs.length ↔ Minimal bs := by
  rw [encode, natAbs_value]
  exact (length_sign_magnitude _ bs).2

/-- The minimal byte strings are those that are written. -/
theorem encode_value_eq_iff : encode (value bs) = bs ↔ Minimal bs := by
  rw [← length_encode_value_eq_iff]
  refine ⟨congrArg List.length, fun length => ?_⟩
  by_cases zero : value bs = 0
  · rw [zero, encode, Int.natAbs_zero, Bytes.digitsLE_zero] at length ⊢
    exact (List.eq_nil_of_length_eq_zero length.symm).symm
  · have same := value_encode (value bs)
    exact eq_of_value_eq length (by rwa [same]) same

/-- Every other byte string with the value of a number is longer than what is written of it. -/
theorem length_encode_lt (same : value bs = n) (other : bs ≠ encode n) :
    (encode n).length < bs.length := by
  subst same
  refine lt_of_le_of_ne (length_encode_value_le bs) fun length => other ?_
  exact (encode_value_eq_iff.mpr (length_encode_value_eq_iff.mp length)).symm

/-- A magnitude that leaves the highest bit of its last byte to the sign takes no byte more. -/
theorem length_sign_digitsLE_le {m width : Nat} (small : m < 128 * 256 ^ width) :
    (sign negative (Bytes.digitsLE m)).length ≤ width + 1 := by
  induction width generalizing m with
  | zero =>
    rcases Nat.eq_zero_or_pos m with rfl | positive
    · rw [Bytes.digitsLE_zero]
      exact Nat.zero_le 1
    · exact (length_sign_small positive (by omega)).le
  | succ width ih =>
    rcases Nat.eq_zero_or_pos (m / 256) with few | many
    · have digits : (Bytes.digitsLE m).length ≤ 1 := Bytes.length_digitsLE_le (by omega)
      have signed := length_sign_le negative (Bytes.digitsLE m)
      omega
    · have digits : Bytes.digitsLE m = m.toUInt8 :: Bytes.digitsLE (m / 256) := by
        rw [Bytes.digitsLE, if_neg (by omega)]
      have rest := @ih (m / 256) (by rw [Nat.pow_succ] at small; omega)
      rw [digits, sign_cons (Bytes.digitsLE_ne_nil many), List.length_cons]
      exact Nat.succ_le_succ rest

/-- A number of sixty-four bits but the least one is read back from what is written of it, and every
other byte string that is read as the number is longer. The least one takes nine bytes, which are not
read. Every byte string of at most eight bytes is read as its value, which is a number of sixty-four
bits and takes no more bytes when it is written, and it is written as it was read exactly if the byte
string is minimal. An item of any length is true exactly if its value is not zero. -/
theorem encode_shortest :
    (∀ n : Int, -2 ^ 63 < n → n < 2 ^ 63 → decode? (encode n) = some n ∧
      ∀ bs, decode? bs = some n → bs ≠ encode n → (encode n).length < bs.length) ∧
    ((encode (-2 ^ 63)).length = 9 ∧ decode? (encode (-2 ^ 63)) = none) ∧
    (∀ bs : Bytes, bs.length ≤ 8 → ∃ n, n = signMagnitude bs ∧ decode? bs = some n ∧
      -2 ^ 63 < n ∧ n < 2 ^ 63 ∧ (encode n).length ≤ bs.length ∧ (encode n = bs ↔ Minimal bs)) ∧
    ∀ bs : Bytes, truthy bs = true ↔ signMagnitude bs ≠ 0 := by
  refine ⟨fun n lower upper => ⟨?_, fun bs read other => ?_⟩, ?_, fun bs short => ?_, fun bs => ?_⟩
  · have digits : n.natAbs < 128 * 256 ^ 7 := by omega
    exact decode?_eq_some_iff.mpr ⟨length_sign_digitsLE_le digits, value_encode n⟩
  · exact length_encode_lt (decode?_eq_some_iff.mp read).2 other
  · constructor <;> decide +kernel
  · have bound : 256 ^ bs.length ≤ 256 ^ 8 := Nat.pow_le_pow_right (by decide) short
    have small := two_magnitude_lt bs
    have absolute := natAbs_value bs
    exact ⟨value bs, value_eq_signMagnitude bs, decode?_eq_some_iff.mpr ⟨short, rfl⟩, by omega, by omega,
      length_encode_value_le bs, encode_value_eq_iff⟩
  · rw [truthy_iff_value, value_eq_signMagnitude]

/-- The greatest number of sixty-four bits is read back from eight bytes. Three bytes are read as
minus five, which takes one. -/
theorem encode_shortest_padded :
    decode? (encode (2 ^ 63 - 1)) = some (2 ^ 63 - 1) ∧
      decode? [0x05, 0x00, 0x80] = some (-5) ∧ (encode (-5)).length < 3 ∧
      encode (-5) ≠ [0x05, 0x00, 0x80] := by
  obtain ⟨numbers, -, reads, -⟩ := encode_shortest
  obtain ⟨n, rfl, read, -, -, -, minimal⟩ := reads [0x05, 0x00, 0x80] (by decide)
  have five : signMagnitude [0x05, 0x00, 0x80] = -5 := by decide
  rw [five] at read minimal
  have padded : encode (-5) ≠ [0x05, 0x00, 0x80] := by
    rw [ne_eq, minimal]
    decide
  refine ⟨(numbers (2 ^ 63 - 1) (by omega) (by omega)).1, read, ?_, padded⟩
  exact (numbers (-5) (by omega) (by omega)).2 _ read padded.symm

end Number

end CoinScript
