import CoinScript.Encoding.Der
import CoinScript.Proofs.Encoding.Digits
import CoinScript.Proofs.Sequencing
import Mathlib.Data.Nat.Size

/-!
# The layout of a signature

A byte string is read as a signature exactly when it is laid out as one: the
marker, the length of the rest, and two integers, each with its marker, the
count of its digits and the digits, with nothing in between and nothing left
over. The digits may be any, and are read as unsigned.

The digits that are written for a number are minimal and do not read as
negative, and no others are written for it. There is one for every eight bits
of the number, and room for the sign. A signature is read back as long as its
two integers together take at most 127 bytes, so that every length fits its
byte; numbers below `2^256` stay far below that. Of a longer one the length
keeps its low eight bits, and whatever they are, it is refused.
-/

namespace CoinScript.Der

variable {n : Nat} {b length : UInt8} {bs data rest digits first second : Bytes} {sig : Signature}

/-! ## Digits -/

/-- No zero stands in front of another digit, unless it keeps the high bit of that one from being
read as a sign. -/
def IsMinimal : Bytes → Prop
  | a :: b :: _ => a = 0 → 0x80 ≤ b
  | _ => True

/-- The high bit, which would be read as a sign, is clear. -/
def IsNonnegative : Bytes → Prop
  | b :: _ => b < 0x80
  | [] => True

instance : DecidablePred IsMinimal
  | a :: b :: _ => inferInstanceAs (Decidable (a = 0 → 0x80 ≤ b))
  | [_] => .isTrue trivial
  | [] => .isTrue trivial

instance : DecidablePred IsNonnegative
  | b :: _ => inferInstanceAs (Decidable (b < 0x80))
  | [] => .isTrue trivial

theorem integerDigits_low (written : Bytes.minimalBE n = b :: bs) (low : b < 0x80) :
    integerDigits n = b :: bs := by
  rw [integerDigits, written]
  exact if_pos low

theorem integerDigits_high (written : Bytes.minimalBE n = b :: bs) (high : 0x80 ≤ b) :
    integerDigits n = 0 :: b :: bs := by
  rw [integerDigits, written]
  exact if_neg (UInt8.not_lt.mpr high)

/-- Three cases: zero, a first digit that is written as it is, and one that needs a zero in front. -/
theorem integerDigits_cases (n : Nat) :
    n = 0 ∨ (∃ b bs, b ≠ 0 ∧ b < 0x80 ∧ integerDigits n = b :: bs) ∨
      ∃ b bs, 0x80 ≤ b ∧ integerDigits n = 0 :: b :: bs := by
  rcases n.eq_zero_or_pos with zero | positive
  · exact Or.inl zero
  · obtain ⟨b, bs, leading, written⟩ := Bytes.exists_minimalBE positive
    rcases UInt8.lt_or_le b 0x80 with low | high
    · exact Or.inr (Or.inl ⟨b, bs, leading, low, integerDigits_low written low⟩)
    · exact Or.inr (Or.inr ⟨b, bs, high, integerDigits_high written high⟩)

theorem isMinimal_integerDigits (n : Nat) : IsMinimal (integerDigits n) := by
  rcases integerDigits_cases n with rfl | ⟨b, bs, leading, -, written⟩ | ⟨b, bs, high, written⟩
  · exact trivial
  · rw [written]
    cases bs with
    | nil => exact trivial
    | cons c bs => exact fun zero => absurd zero leading
  · rw [written]
    exact fun _ => high

theorem isNonnegative_integerDigits (n : Nat) : IsNonnegative (integerDigits n) := by
  rcases integerDigits_cases n with rfl | ⟨b, bs, -, low, written⟩ | ⟨b, bs, -, written⟩
  · exact (by decide : (0 : UInt8) < 0x80)
  · rw [written]
    exact low
  · rw [written]
    exact (by decide : (0 : UInt8) < 0x80)

theorem integerDigits_ne_nil (n : Nat) : integerDigits n ≠ [] := by
  rcases integerDigits_cases n with rfl | ⟨b, bs, -, -, written⟩ | ⟨b, bs, -, written⟩
  · exact List.cons_ne_nil 0 []
  · rw [written]
    exact List.cons_ne_nil b bs
  · rw [written]
    exact List.cons_ne_nil 0 _

/-- The digits of an integer have its value. -/
theorem toNatBE_integerDigits (n : Nat) : Bytes.toNatBE (integerDigits n) = n := by
  have value := Bytes.toNatBE_minimalBE n
  unfold integerDigits
  split
  · rename_i empty
    rwa [empty] at value
  · rename_i b bs written
    rw [written] at value
    by_cases low : b < 0x80
    · rwa [if_pos low]
    · rwa [if_neg low, Bytes.toNatBE_zero_cons]

/-- What is written for a value are the digits that are minimal and not negative. -/
theorem integerDigits_toNatBE_iff (nonempty : digits ≠ []) :
    integerDigits (Bytes.toNatBE digits) = digits ↔ IsMinimal digits ∧ IsNonnegative digits := by
  constructor
  · intro written
    rw [← written]
    exact ⟨isMinimal_integerDigits _, isNonnegative_integerDigits _⟩
  · rintro ⟨minimal, nonnegative⟩
    match digits with
    | [] => exact absurd rfl nonempty
    | b :: bs =>
      by_cases leading : b = 0
      · subst leading
        match bs with
        | [] => rfl
        | c :: cs =>
          have high : 0x80 ≤ c := minimal rfl
          have leading : c ≠ 0 := by
            rintro rfl
            exact absurd high (by decide)
          rw [Bytes.toNatBE_zero_cons]
          exact integerDigits_high (Bytes.minimalBE_toNatBE leading) high
      · exact integerDigits_low (Bytes.minimalBE_toNatBE leading) nonnegative

theorem pow_256 (k : Nat) : 256 ^ k = 2 ^ (8 * k) := by
  rw [Nat.pow_mul]

theorem size_toNatBE_le (nonnegative : IsNonnegative (b :: bs)) :
    (Bytes.toNatBE (b :: bs)).size ≤ 8 * bs.length + 7 := by
  have low : b.toNat < 128 := UInt8.lt_iff_toNat_lt.mp nonnegative
  have rest := Bytes.toNatBE_lt bs
  rw [Nat.size_le, Bytes.toNatBE_cons]
  calc b.toNat * 256 ^ bs.length + Bytes.toNatBE bs
    _ < b.toNat * 256 ^ bs.length + 256 ^ bs.length := Nat.add_lt_add_left rest _
    _ = (b.toNat + 1) * 256 ^ bs.length := (Nat.succ_mul _ _).symm
    _ ≤ 2 ^ 7 * 256 ^ bs.length := Nat.mul_le_mul_right _ low
    _ = 2 ^ (8 * bs.length + 7) := by rw [pow_256, ← Nat.pow_add, Nat.add_comm]

/-- A minimal first digit is there for one of its own bits or for the high bit behind it. -/
theorem le_size_toNatBE (minimal : IsMinimal (b :: bs)) :
    8 * bs.length ≤ (Bytes.toNatBE (b :: bs)).size := by
  by_cases leading : b = 0
  · subst leading
    cases bs with
    | nil => exact Nat.zero_le _
    | cons c cs =>
      have high : 2 ^ 7 ≤ c.toNat := UInt8.le_iff_toNat_le.mp (minimal rfl)
      have value : 2 ^ (8 * cs.length + 7) ≤ Bytes.toNatBE (c :: cs) := by
        rw [Bytes.toNatBE_cons, Nat.pow_add, ← pow_256, Nat.mul_comm]
        exact (Nat.mul_le_mul_right _ high).trans (Nat.le_add_right _ _)
      rw [Bytes.toNatBE_zero_cons, List.length_cons]
      exact Nat.lt_size.mpr value
  · have value := Bytes.pow_le_toNatBE bs leading
    rw [pow_256] at value
    exact (Nat.lt_size.mpr value).le

/-- An integer takes a digit for every eight bits, and the last one has room for the sign. -/
theorem length_integerDigits (n : Nat) : (integerDigits n).length = n.size / 8 + 1 := by
  have minimal := isMinimal_integerDigits n
  have nonnegative := isNonnegative_integerDigits n
  have value := toNatBE_integerDigits n
  cases written : integerDigits n with
  | nil => exact absurd written (integerDigits_ne_nil n)
  | cons b bs =>
    rw [written] at minimal nonnegative value
    have lower := le_size_toNatBE minimal
    have upper := size_toNatBE_le nonnegative
    rw [value] at lower upper
    rw [List.length_cons]
    omega

/-! ## Reading -/

/-- A length byte states a count of one to 127 digits. -/
structure Counts (length : UInt8) (digits : Bytes) : Prop where
  positive : 1 ≤ length.toNat
  stated : length.toNat = digits.length
  short : digits.length ≤ 127

theorem Counts.ne_nil (counts : Counts length digits) : digits ≠ [] := by
  rintro rfl
  exact absurd (counts.positive.trans_eq counts.stated) (by decide)

/-- `30 L 02 l₁ R 02 l₂ S`, where `L` is the length of what follows it and `l₁` and `l₂` are the
lengths of the digits `R` and `S`. -/
def IsLayout (data first second : Bytes) : Prop :=
  ∃ length firstLength secondLength : UInt8,
    data = 0x30 :: length ::
      (0x02 :: firstLength :: first ++ 0x02 :: secondLength :: second) ∧
    length.toNat = data.length - 2 ∧ data.length - 2 ≤ 127 ∧
    Counts firstLength first ∧ Counts secondLength second

theorem not_longForm_iff : ¬ 0x80 ≤ length ↔ length.toNat ≤ 127 := by
  rw [UInt8.le_iff_toNat_le, Nat.not_le]
  exact Nat.lt_succ_iff

theorem decodeInteger_eq_ok_iff : decodeInteger data = .ok (n, rest) ↔
    ∃ length digits, data = integerMarker :: length :: digits ++ rest ∧ Counts length digits ∧
      n = Bytes.toNatBE digits := by
  constructor
  · fun_cases decodeInteger data with
    -- The only case that does not end in an error.
    | case7 marker marked length content nonempty short front back cut =>
      intro decoded
      cases decoded
      obtain ⟨rfl, counted⟩ := Bytes.splitAt?_eq_some_iff.mp cut
      rw [not_longForm_iff] at short
      have positive : length.toNat ≠ 0 := fun zero => nonempty (UInt8.toNat_inj.mp zero)
      exact ⟨length, front, by rw [not_not.mp marked]; rfl,
        ⟨Nat.pos_of_ne_zero positive, counted.symm, counted.trans_le short⟩, rfl⟩
    | _ => exact fun decoded => nomatch decoded
  · rintro ⟨length, digits, rfl, ⟨positive, counted, short⟩, rfl⟩
    have nonempty : length ≠ 0 := by
      rintro rfl
      exact absurd positive (by decide)
    have shortForm : ¬ 0x80 ≤ length := not_longForm_iff.mpr (counted.trans_le short)
    have cut : Bytes.splitAt? length.toNat (digits ++ rest) = some (digits, rest) :=
      Bytes.splitAt?_eq_some_iff.mpr ⟨rfl, counted.symm⟩
    simp only [List.cons_append, decodeInteger, ne_eq, not_true, if_false, nonempty, shortForm, cut]

/-- Two integers that take up the whole content, one after the other. -/
theorem decodeIntegers_eq_ok_iff {r s : Nat} :
    (∃ rest, decodeInteger data = .ok (r, rest) ∧ decodeInteger rest = .ok (s, [])) ↔
      ∃ firstLength first secondLength second,
        data = 0x02 :: firstLength :: first ++ 0x02 :: secondLength :: second ∧
        Counts firstLength first ∧ Counts secondLength second ∧
        r = Bytes.toNatBE first ∧ s = Bytes.toNatBE second := by
  constructor
  · rintro ⟨rest, readFirst, readSecond⟩
    obtain ⟨firstLength, first, rfl, firstCounts, rfl⟩ := decodeInteger_eq_ok_iff.mp readFirst
    obtain ⟨secondLength, second, rfl, secondCounts, rfl⟩ := decodeInteger_eq_ok_iff.mp readSecond
    rw [List.append_nil]
    exact ⟨firstLength, first, secondLength, second, rfl, firstCounts, secondCounts, rfl, rfl⟩
  · rintro ⟨firstLength, first, secondLength, second, rfl, firstCounts, secondCounts, rfl, rfl⟩
    refine ⟨0x02 :: secondLength :: second, ?_, ?_⟩
    · exact decodeInteger_eq_ok_iff.mpr ⟨firstLength, first, rfl, firstCounts, rfl⟩
    · refine decodeInteger_eq_ok_iff.mpr ⟨secondLength, second, ?_, secondCounts, rfl⟩
      rw [List.append_nil]
      rfl

/-- Behind the marker stands a short length, which is that of the two integers behind it. -/
theorem decode_eq_ok_iff_decodeInteger : decode data = .ok sig ↔
    ∃ length content rest, data = 0x30 :: length :: content ∧ length.toNat = content.length ∧
      length.toNat ≤ 127 ∧ decodeInteger content = .ok (sig.r, rest) ∧
      decodeInteger rest = .ok (sig.s, []) := by
  constructor
  · fun_cases decode data with
    -- The only case that does not end in an error.
    | case6 marker marked length content short whole =>
      intro decoded
      obtain ⟨⟨r, rest⟩, readFirst, decoded⟩ := bind_eq_ok_iff.mp decoded
      obtain ⟨⟨s, behind⟩, readSecond, decoded⟩ := bind_eq_ok_iff.mp decoded
      dsimp only at readSecond decoded
      split at decoded
      · rename_i nothing
        cases decoded
        rw [nothing] at readSecond
        rw [not_longForm_iff] at short
        exact ⟨length, content, rest, by rw [not_not.mp marked]; rfl, not_not.mp whole, short,
          readFirst, readSecond⟩
      · cases decoded
    | _ => exact fun decoded => nomatch decoded
  · rintro ⟨length, content, rest, rfl, whole, short, readFirst, readSecond⟩
    have shortForm : ¬ 0x80 ≤ length := not_longForm_iff.mpr short
    have marker : sequenceMarker = 0x30 := rfl
    simp only [decode, marker, ne_eq, not_true, if_false, shortForm, whole, readFirst, readSecond,
      ok_bind, if_true, pure, Except.pure]

theorem decode_eq_ok_iff : decode data = .ok sig ↔
    ∃ first second, IsLayout data first second ∧
      sig = ⟨Bytes.toNatBE first, Bytes.toNatBE second⟩ := by
  rw [decode_eq_ok_iff_decodeInteger]
  constructor
  · rintro ⟨length, content, rest, rfl, whole, short, readFirst, readSecond⟩
    obtain ⟨firstLength, first, secondLength, second, rfl, firstCounts, secondCounts, r_eq, s_eq⟩ :=
      decodeIntegers_eq_ok_iff.mp ⟨rest, readFirst, readSecond⟩
    refine ⟨first, second, ⟨length, firstLength, secondLength, rfl, whole, whole.symm.trans_le short,
      firstCounts, secondCounts⟩, ?_⟩
    rw [← r_eq, ← s_eq]
  · rintro ⟨first, second, ⟨length, firstLength, secondLength, rfl, whole, short, firstCounts,
      secondCounts⟩, rfl⟩
    obtain ⟨rest, readFirst, readSecond⟩ := decodeIntegers_eq_ok_iff.mpr
      ⟨firstLength, first, secondLength, second, rfl, firstCounts, secondCounts, rfl, rfl⟩
    exact ⟨length, _, rest, rfl, whole, whole.trans_le short, readFirst, readSecond⟩

/-- The positions of the digits follow from the length bytes. -/
theorem IsLayout.digits_unique {first' second' : Bytes} (layout : IsLayout data first second)
    (layout' : IsLayout data first' second') : first = first' ∧ second = second' := by
  obtain ⟨_, _, _, rfl, -, -, counts, -⟩ := layout
  obtain ⟨_, _, _, same, -, -, counts', -⟩ := layout'
  simp only [List.cons_append, List.cons.injEq, true_and] at same
  obtain ⟨-, rfl, same⟩ := same
  obtain ⟨firsts, seconds⟩ := List.append_inj same (counts.stated.symm.trans counts'.stated)
  simp only [List.cons.injEq, true_and] at seconds
  exact ⟨firsts, seconds.2⟩

theorem Counts.length_unique {length' : UInt8} (counts : Counts length digits)
    (counts' : Counts length' digits) : length = length' :=
  UInt8.toNat_inj.mp (counts.stated.trans counts'.stated.symm)

/-- The length bytes follow from the digits. -/
theorem IsLayout.data_unique {data' : Bytes} (layout : IsLayout data first second)
    (layout' : IsLayout data' first second) : data = data' := by
  obtain ⟨length, _, _, rfl, whole, -, firstCounts, secondCounts⟩ := layout
  obtain ⟨length', _, _, rfl, whole', -, firstCounts', secondCounts'⟩ := layout'
  obtain rfl := firstCounts.length_unique firstCounts'
  obtain rfl := secondCounts.length_unique secondCounts'
  obtain rfl : length = length' := UInt8.toNat_inj.mp (whole.trans whole'.symm)
  rfl

theorem IsLayout.length_eq (layout : IsLayout data first second) :
    data.length = first.length + second.length + 6 := by
  obtain ⟨_, _, _, rfl, -⟩ := layout
  simp only [List.length_cons, List.length_append]
  omega

theorem IsLayout.length_le (layout : IsLayout data first second) : data.length ≤ 129 := by
  obtain ⟨_, _, _, -, -, short, -⟩ := layout
  omega

/-! ## Writing -/

/-- The two integers, without the marker and the length of the signature. -/
def body (sig : Signature) : Bytes :=
  encodeInteger sig.r ++ encodeInteger sig.s

theorem length_body_digits (sig : Signature) : (body sig).length =
    (integerDigits sig.r).length + (integerDigits sig.s).length + 4 := by
  simp only [body, encodeInteger, List.length_append, List.length_cons]
  omega

theorem length_body (sig : Signature) :
    (body sig).length = sig.r.size / 8 + sig.s.size / 8 + 6 := by
  rw [length_body_digits, length_integerDigits, length_integerDigits]
  omega

theorem length_encode (sig : Signature) : (encode sig).length = (body sig).length + 2 := rfl

theorem counts_integerDigits (short : (integerDigits n).length ≤ 127) :
    Counts (integerDigits n).length.toUInt8 (integerDigits n) := by
  have length := Bytes.toNat_length_toUInt8 (short.trans (by decide))
  refine ⟨?_, length, short⟩
  rw [length, length_integerDigits]
  exact Nat.succ_pos _

/-- With short lengths the encoder follows the layout. -/
theorem isLayout_encode (sig : Signature) (short : (body sig).length ≤ 127) :
    IsLayout (encode sig) (integerDigits sig.r) (integerDigits sig.s) := by
  have lengths := length_body_digits sig
  have firstCounts := counts_integerDigits (n := sig.r) (by omega)
  have secondCounts := counts_integerDigits (n := sig.s) (by omega)
  have length := Bytes.toNat_length_toUInt8 (short.trans (by decide))
  exact ⟨_, _, _, rfl, length, short, firstCounts, secondCounts⟩

theorem decode_encode (short : (body sig).length ≤ 127) : decode (encode sig) = .ok sig :=
  decode_eq_ok_iff.mpr ⟨integerDigits sig.r, integerDigits sig.s, isLayout_encode sig short, by
    rw [toNatBE_integerDigits, toNatBE_integerDigits]⟩

/-- Signatures of the size that verification accepts have short lengths. -/
theorem length_body_le (r_lt : sig.r < 2 ^ 256) (s_lt : sig.s < 2 ^ 256) :
    (body sig).length ≤ 127 := by
  have first := Nat.size_le.mpr r_lt
  have second := Nat.size_le.mpr s_lt
  rw [length_body]
  omega

/-- One byte cannot state the length of more than 127 bytes: either its high bit is set, or it states
another length. -/
theorem decode_of_long {content : Bytes} (long : 127 < content.length) :
    decode (sequenceMarker :: length :: content) =
      if length.toNat < 128 then .error (.sequenceLength length.toNat content.length)
      else .error .longSequenceLength := by
  by_cases short : length.toNat < 128
  · have shortForm : ¬ 0x80 ≤ length := not_longForm_iff.mpr (Nat.le_of_lt_succ short)
    have other : length.toNat ≠ content.length := by omega
    simp only [decode, ne_eq, not_true, if_false, shortForm, other, not_false_eq_true, if_true, short]
  · have longForm : 0x80 ≤ length := UInt8.le_iff_toNat_le.mpr (Nat.le_of_not_lt short)
    simp only [decode, ne_eq, not_true, if_false, longForm, if_true, short]

/-- A signature is read back exactly when its two integers take at most 127 bytes. -/
theorem decode_encode_domain (sig : Signature) :
    (body sig).length = sig.r.size / 8 + sig.s.size / 8 + 6 ∧
      (encode sig).length = (body sig).length + 2 ∧
      decode (encode sig) =
        (if (body sig).length ≤ 127 then .ok sig
        else if (body sig).length % 256 < 128 then
          .error (.sequenceLength ((body sig).length % 256) (body sig).length)
        else .error .longSequenceLength) ∧
      (sig.r < 2 ^ 256 → sig.s < 2 ^ 256 → (body sig).length ≤ 127) := by
  refine ⟨length_body sig, length_encode sig, ?_, length_body_le⟩
  by_cases short : (body sig).length ≤ 127
  · rw [if_pos short, decode_encode short]
  · have written : encode sig = sequenceMarker :: (body sig).length.toUInt8 :: body sig := rfl
    rw [if_neg short, written, decode_of_long (Nat.lt_of_not_le short), Bytes.toNat_toUInt8]

/-- Two numbers of thirty-two bytes are read back. Of a number of 2001 bits the length byte is zero,
and the signature is refused. -/
theorem decode_encode_domain_wide :
    2 ^ 256 - 1 < 2 ^ 256 ∧ 2 ^ 255 < 2 ^ 256 ∧ (body ⟨2 ^ 256 - 1, 2 ^ 255⟩).length ≤ 127 ∧
      decode (encode ⟨2 ^ 256 - 1, 2 ^ 255⟩) = .ok ⟨2 ^ 256 - 1, 2 ^ 255⟩ ∧
      decode (encode ⟨1 <<< 2000, 0⟩) = .error (.sequenceLength 0 256) := by
  have r_lt : 2 ^ 256 - 1 < 2 ^ 256 := by decide
  have s_lt : 2 ^ 255 < 2 ^ 256 := by decide
  obtain ⟨-, -, read, small⟩ := decode_encode_domain ⟨2 ^ 256 - 1, 2 ^ 255⟩
  have short := small r_lt s_lt
  rw [if_pos short] at read
  have refused : ∀ n : Nat, n.size = 2001 →
      decode (encode ⟨n, 0⟩) = .error (.sequenceLength 0 256) := by
    intro n size
    obtain ⟨long, -, refused, -⟩ := decode_encode_domain ⟨n, 0⟩
    rw [size, Nat.size_zero] at long
    rwa [long] at refused
  have size : (1 <<< 2000).size = 2001 := by
    rw [Nat.size_shiftLeft Nat.one_ne_zero, Nat.size_one]
  exact ⟨r_lt, s_lt, short, read, refused _ size⟩

/-! ## Writing what was read -/

/-- The encoder returns the data that a signature was read from exactly when it would write its
digits. -/
theorem encode_eq_iff (layout : IsLayout data first second) :
    encode ⟨Bytes.toNatBE first, Bytes.toNatBE second⟩ = data ↔
      integerDigits (Bytes.toNatBE first) = first ∧ integerDigits (Bytes.toNatBE second) = second := by
  have length := layout.length_eq
  have short := layout.length_le
  constructor
  · intro written
    have length' := length_encode ⟨Bytes.toNatBE first, Bytes.toNatBE second⟩
    rw [written] at length'
    have layout' := isLayout_encode ⟨Bytes.toNatBE first, Bytes.toNatBE second⟩ (by omega)
    rw [written] at layout'
    exact layout'.digits_unique layout
  · rintro ⟨firsts, seconds⟩
    have lengths := length_body_digits ⟨Bytes.toNatBE first, Bytes.toNatBE second⟩
    rw [firsts, seconds] at lengths
    have layout' := isLayout_encode ⟨Bytes.toNatBE first, Bytes.toNatBE second⟩ (by omega)
    rw [firsts, seconds] at layout'
    exact layout'.data_unique layout

/-- A byte string is read as a signature exactly when it is laid out as one, and it is what the
encoder writes exactly when the digits of both integers are minimal and not negative. -/
theorem decode_layout (data : Bytes) :
    (∀ sig, decode data = .ok sig ↔ ∃ first second, IsLayout data first second ∧
      sig = ⟨Bytes.toNatBE first, Bytes.toNatBE second⟩) ∧
    ∀ first second, IsLayout data first second →
      (encode ⟨Bytes.toNatBE first, Bytes.toNatBE second⟩ = data ↔
        (IsMinimal first ∧ IsNonnegative first) ∧ IsMinimal second ∧ IsNonnegative second) := by
  refine ⟨fun sig => decode_eq_ok_iff, fun first second layout => ?_⟩
  rw [encode_eq_iff layout]
  obtain ⟨_, _, _, -, -, -, counts, counts'⟩ := layout
  rw [integerDigits_toNatBE_iff counts.ne_nil, integerDigits_toNatBE_iff counts'.ne_nil]

/-- A zero in front of `01` is read but not written, and one in front of `80` is both. -/
theorem decode_layout_padded :
    IsLayout [0x30, 7, 2, 2, 0, 1, 2, 1, 1] [0, 1] [1] ∧
      decode [0x30, 7, 2, 2, 0, 1, 2, 1, 1] = .ok ⟨1, 1⟩ ∧
      encode ⟨1, 1⟩ ≠ [0x30, 7, 2, 2, 0, 1, 2, 1, 1] ∧
      IsLayout [0x30, 7, 2, 1, 1, 2, 2, 0, 0x80] [1] [0, 0x80] ∧
      encode ⟨1, 0x80⟩ = [0x30, 7, 2, 1, 1, 2, 2, 0, 0x80] := by
  have padded : IsLayout [0x30, 7, 2, 2, 0, 1, 2, 1, 1] [0, 1] [1] :=
    ⟨7, 2, 1, rfl, rfl, by decide, ⟨by decide, rfl, by decide⟩, ⟨by decide, rfl, by decide⟩⟩
  have shortest : IsLayout [0x30, 7, 2, 1, 1, 2, 2, 0, 0x80] [1] [0, 0x80] :=
    ⟨7, 1, 2, rfl, rfl, by decide, ⟨by decide, rfl, by decide⟩, ⟨by decide, rfl, by decide⟩⟩
  obtain ⟨read, written⟩ := decode_layout [0x30, 7, 2, 2, 0, 1, 2, 1, 1]
  obtain ⟨-, written'⟩ := decode_layout [0x30, 7, 2, 1, 1, 2, 2, 0, 0x80]
  have notMinimal : ¬IsMinimal [0, 1] := by decide
  exact ⟨padded, (read _).mpr ⟨_, _, padded, rfl⟩,
    fun same => notMinimal ((written _ _ padded).mp same).1.1, shortest,
    (written' _ _ shortest).mpr (by decide)⟩

end CoinScript.Der
