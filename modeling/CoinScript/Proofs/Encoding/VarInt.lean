import CoinScript.Encoding.VarInt
import CoinScript.Proofs.Encoding.Digits

/-!
# One encoding for every number

A number below `2^64` is read back from its encoding, whatever follows it, and
nothing but its encoding is read as that number. A marker with too few bytes
behind it is refused as truncated, and a number behind a marker that a shorter
form has room for as not minimal. A smaller number never has a longer encoding.
-/

namespace CoinScript.VarInt

variable {width least n used : Nat} {data : Bytes}

theorem decodeWide_ofNatLE (fits : n < 256 ^ width) :
    decodeWide width least (Bytes.ofNatLE width n ++ data) =
      if n < least then .error .notMinimal else .ok (n, 1 + width) := by
  have cut : Bytes.splitAt? width (Bytes.ofNatLE width n ++ data) =
      some (Bytes.ofNatLE width n, data) :=
    Bytes.splitAt?_eq_some_iff.mpr ⟨rfl, Bytes.length_ofNatLE width n⟩
  have value := Bytes.toNatLE_ofNatLE_of_lt fits
  simp only [decodeWide, cut, value]

/-- Digits of a fixed width are read as their value, unless a shorter form has room for it. -/
theorem decodeWide_eq_ok_iff : decodeWide width least data = .ok (n, used) ↔
    used = 1 + width ∧ least ≤ n ∧ n < 256 ^ width ∧
      ∃ rest, data = Bytes.ofNatLE width n ++ rest := by
  constructor
  · intro decoded
    unfold decodeWide at decoded
    split at decoded
    · cases decoded
    · rename_i digits rest cut
      obtain ⟨rfl, length⟩ := Bytes.splitAt?_eq_some_iff.mp cut
      dsimp only at decoded
      split at decoded
      · cases decoded
      · rename_i wide
        cases decoded
        have fits := Bytes.toNatLE_lt digits
        have same := Bytes.ofNatLE_toNatLE digits
        rw [length] at fits same
        exact ⟨rfl, Nat.le_of_not_lt wide, fits, rest, by rw [same]⟩
  · rintro ⟨rfl, wide, fits, rest, rfl⟩
    rw [decodeWide_ofNatLE fits, if_neg (Nat.not_lt_of_le wide)]

theorem decodeWide_of_length_lt (short : data.length < width) :
    decodeWide width least data = .error .truncated := by
  have cut : Bytes.splitAt? width data = none := by
    rw [Bytes.splitAt?, if_neg]
    rw [List.length_take]
    omega
  rw [decodeWide, cut]

/-! ## The forms -/

theorem encode_unmarked (short : n < 0xfd) : encode n = [n.toUInt8] := by
  rw [encode, if_pos short]

theorem decode_unmarked {b : UInt8} (unmarked : b < 0xfd) : decode (b :: data) = .ok (b.toNat, 1) := by
  rw [decode, if_pos unmarked]

/-- A form with a marker: how many bytes follow it, and the least number that needs them. -/
structure Form where
  marker : UInt8
  width : Nat
  least : Nat

def forms : List Form :=
  [⟨0xfd, 2, 0xfd⟩, ⟨0xfe, 4, 0x10000⟩, ⟨0xff, 8, 0x100000000⟩]

variable {form : Form}

theorem mem_forms_iff : form ∈ forms ↔
    form = ⟨0xfd, 2, 0xfd⟩ ∨ form = ⟨0xfe, 4, 0x10000⟩ ∨ form = ⟨0xff, 8, 0x100000000⟩ := by
  simp only [forms, List.mem_cons, List.not_mem_nil, or_false]

theorem encode_form (known : form ∈ forms) (wide : form.least ≤ n) (fits : n < 256 ^ form.width) :
    encode n = form.marker :: Bytes.ofNatLE form.width n := by
  unfold encode
  rcases mem_forms_iff.mp known with rfl | rfl | rfl <;> dsimp only at wide fits ⊢
  · rw [if_neg (by omega), if_pos (by omega)]
  · rw [if_neg (by omega), if_neg (by omega), if_pos (by omega)]
  · rw [if_neg (by omega), if_neg (by omega), if_neg (by omega)]

theorem decode_form (known : form ∈ forms) :
    decode (form.marker :: data) = decodeWide form.width form.least data := by
  rcases mem_forms_iff.mp known with rfl | rfl | rfl
  · rfl
  · rfl
  · rfl

/-- A number that does not fit one byte has its form. -/
theorem exists_form (wide : 0xfd ≤ n) (word : n < 2 ^ 64) :
    ∃ form ∈ forms, form.least ≤ n ∧ n < 256 ^ form.width := by
  by_cases two : n < 0x10000
  · exact ⟨_, mem_forms_iff.mpr (Or.inl rfl), wide, two⟩
  by_cases four : n < 0x100000000
  · exact ⟨_, mem_forms_iff.mpr (Or.inr (Or.inl rfl)), Nat.le_of_not_lt two, four⟩
  · exact ⟨_, mem_forms_iff.mpr (Or.inr (Or.inr rfl)), Nat.le_of_not_lt four, word⟩

/-- A first byte of `fd` or above is one of the three markers. -/
theorem exists_marker {b : UInt8} (marked : ¬b < 0xfd) : ∃ form ∈ forms, b = form.marker := by
  have low : 0xfd ≤ b.toNat := Nat.le_of_not_lt fun lt => marked (UInt8.lt_iff_toNat_lt.mpr lt)
  have high := b.toNat_lt
  have cases : b = 0xfd ∨ b = 0xfe ∨ b = 0xff := by
    rw [← UInt8.toNat_inj, ← UInt8.toNat_inj, ← UInt8.toNat_inj]
    change b.toNat = 0xfd ∨ b.toNat = 0xfe ∨ b.toNat = 0xff
    omega
  rcases cases with rfl | rfl | rfl
  · exact ⟨_, mem_forms_iff.mpr (Or.inl rfl), rfl⟩
  · exact ⟨_, mem_forms_iff.mpr (Or.inr (Or.inl rfl)), rfl⟩
  · exact ⟨_, mem_forms_iff.mpr (Or.inr (Or.inr rfl)), rfl⟩

theorem width_le (known : form ∈ forms) : form.width ≤ 8 := by
  rcases mem_forms_iff.mp known with rfl | rfl | rfl
  · decide
  · decide
  · decide

/-- The bounds for writing are the bounds for reading: a number has room in a shorter form exactly
when it is below the least one of this form. -/
theorem length_encode_le_width_iff (known : form ∈ forms) :
    (encode n).length ≤ form.width ↔ n < form.least := by
  unfold encode
  rcases mem_forms_iff.mp known with rfl | rfl | rfl <;> split_ifs <;>
    simp only [List.length_cons, List.length_nil, Bytes.length_ofNatLE] <;> omega

theorem length_encode_le {m : Nat} (le : m ≤ n) : (encode m).length ≤ (encode n).length := by
  unfold encode
  split_ifs <;> simp only [List.length_cons, List.length_nil, Bytes.length_ofNatLE] <;> omega

/-! ## Reading and writing -/

theorem decode_encode (word : n < 2 ^ 64) (rest : Bytes) :
    decode (encode n ++ rest) = .ok (n, (encode n).length) := by
  rcases Nat.lt_or_ge n 0xfd with short | wide
  · have value : n.toUInt8.toNat = n := by
      rw [Bytes.toNat_toUInt8]
      omega
    have unmarked : n.toUInt8 < 0xfd := by
      rw [UInt8.lt_iff_toNat_lt, value]
      exact short
    rw [encode_unmarked short, List.cons_append, decode_unmarked unmarked, value]
    rfl
  · obtain ⟨form, known, wide, fits⟩ := exists_form wide word
    rw [encode_form known wide fits, List.cons_append, decode_form known, decodeWide_eq_ok_iff,
      List.length_cons, Bytes.length_ofNatLE, Nat.add_comm]
    exact ⟨rfl, wide, fits, rest, rfl⟩

theorem encode_of_decode (decoded : decode data = .ok (n, used)) :
    n < 2 ^ 64 ∧ used = (encode n).length ∧ ∃ rest, data = encode n ++ rest := by
  cases data with
  | nil => cases decoded
  | cons b body =>
    by_cases unmarked : b < 0xfd
    · rw [decode_unmarked unmarked] at decoded
      cases decoded
      have short : b.toNat < 0xfd := UInt8.lt_iff_toNat_lt.mp unmarked
      rw [encode_unmarked short, Nat.toUInt8, UInt8.ofNat_toNat]
      exact ⟨by omega, rfl, body, rfl⟩
    · obtain ⟨form, known, rfl⟩ := exists_marker unmarked
      rw [decode_form known, decodeWide_eq_ok_iff] at decoded
      obtain ⟨rfl, wide, fits, rest, rfl⟩ := decoded
      have word : n < 256 ^ 8 := fits.trans_le (Nat.pow_le_pow_right (by decide) (width_le known))
      rw [encode_form known wide fits, List.length_cons, Bytes.length_ofNatLE, Nat.add_comm]
      exact ⟨word, rfl, rest, rfl⟩

theorem decode_truncated (known : form ∈ forms) (short : data.length < form.width) :
    decode (form.marker :: data) = .error .truncated := by
  rw [decode_form known, decodeWide_of_length_lt short]

theorem decode_notMinimal (known : form ∈ forms) (fits : n < 256 ^ form.width)
    (shorter : (encode n).length ≤ form.width) :
    decode (form.marker :: Bytes.ofNatLE form.width n ++ data) = .error .notMinimal := by
  rw [List.cons_append, decode_form known,
    decodeWide_ofNatLE fits, if_pos ((length_encode_le_width_iff known).mp shorter)]

/-- Numbers of sixty-four bits are read back from their encodings, whatever follows them. What is read
is the encoding of the number at the start of the data. Forms that are cut short are refused, and so
are forms that are longer than the encoding of their number. -/
theorem canonical_prefix_code (data : Bytes) :
    (∀ n < 2 ^ 64, decode (encode n ++ data) = .ok (n, (encode n).length)) ∧
      (∀ n used, decode data = .ok (n, used) →
        n < 2 ^ 64 ∧ used ≤ data.length ∧ data.take used = encode n) ∧
      decode [] = .error .truncated ∧
      (∀ form ∈ forms, data.length < form.width →
        decode (form.marker :: data) = .error .truncated) ∧
      ∀ form ∈ forms, ∀ n < 256 ^ form.width, (encode n).length < 1 + form.width →
        decode (form.marker :: Bytes.ofNatLE form.width n ++ data) = .error .notMinimal := by
  refine ⟨fun n word => decode_encode word data, fun n used decoded => ?_, rfl,
    fun form known short => decode_truncated known short,
    fun form known n fits shorter => decode_notMinimal known fits (by omega)⟩
  obtain ⟨word, rfl, rest, rfl⟩ := encode_of_decode decoded
  refine ⟨word, ?_, List.take_left⟩
  rw [List.length_append]
  exact Nat.le_add_right _ _

/-- At the boundary to the form with four bytes: the first number that needs it, the last that does
not, and the marker alone. -/
theorem canonical_prefix_code_boundary :
    0x10000 < 2 ^ 64 ∧ decode (encode 0x10000 ++ [0xaa]) = .ok (0x10000, (encode 0x10000).length) ∧
      decode [0xfd, 0xff, 0xff, 0xaa] = .ok (0xffff, 3) ∧
      [0xfd, 0xff, 0xff, 0xaa].take 3 = encode 0xffff ∧
      ⟨0xfe, 4, 0x10000⟩ ∈ forms ∧ (encode 0xffff).length < 1 + 4 ∧
      decode (0xfe :: Bytes.ofNatLE 4 0xffff ++ [0xaa]) = .error .notMinimal ∧
      decode [0xfe, 0xaa] = .error .truncated := by
  have known : ⟨0xfe, 4, 0x10000⟩ ∈ forms := by
    simp [forms]
  have shorter : (encode 0xffff).length < 1 + 4 := by
    decide
  have decoded : decode [0xfd, 0xff, 0xff, 0xaa] = .ok (0xffff, 3) := rfl
  obtain ⟨wrote, -, -, cut, padded⟩ := canonical_prefix_code [0xaa]
  obtain ⟨-, read, -⟩ := canonical_prefix_code [0xfd, 0xff, 0xff, 0xaa]
  exact ⟨by decide, wrote 0x10000 (by decide), decoded, (read _ _ decoded).2.2, known, shorter,
    padded _ known 0xffff (by decide) shorter, cut _ known (by decide)⟩

end CoinScript.VarInt
