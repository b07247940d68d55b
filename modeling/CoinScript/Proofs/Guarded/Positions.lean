import CoinScript.Guarded.Positions
import CoinScript.Proofs.Encoding.VarInt
import CoinScript.Proofs.Guarded.Wire

/-!
# Positions that have room, and one that has not

A byte string in memory has fewer than `2^63` bytes, and a push is at most
`2^16` bytes long, so that the positions of commands have room in sixty-four
bits. The end of a script that is announced by a length need not: the length is
compared with the limit only, and this may be as large as the length. Only the
nine largest numbers run over, and only if the limit lets them pass.
-/

namespace CoinScript

open Guarded

namespace Guarded

variable {ε : Type} {a b : Nat}

theorem sum_of_lt (room : a + b < 2 ^ 64) : (sum a b : Guarded ε Nat) = .ok (a + b) :=
  if_pos room

theorem sum_of_le (exceeds : 2 ^ 64 ≤ a + b) :
    (sum a b : Guarded ε Nat) = crash (.overflow (a + b : Nat)) :=
  if_neg (Nat.not_lt.mpr exceeds)

theorem ofResult_ne_crash {α : Type} {x : Except ε α} {c : Crash} : ofResult x ≠ crash c := by
  cases x with
  | error e => exact nofun
  | ok a => exact nofun

end Guarded

/-! ## Within a script -/

namespace Reading

variable {data : Bytes} {length position : Nat}

theorem sizedPushAt_eq (room : position + length < 2 ^ 64) :
    sizedPushAt data length position = pushAt data length position := by
  rw [sizedPushAt, pushAt, sum_of_lt room]
  rfl

/-- A command takes up less than `2^16 + 3` bytes. -/
theorem sizedCommandAt_eq (room : position + 0x10003 ≤ 2 ^ 64) :
    sizedCommandAt data position = commandAt data position := by
  unfold sizedCommandAt commandAt
  cases (element data position : Guarded ParseError UInt8) with
  | error halt => rfl
  | ok first =>
    have byte (b : UInt8) : b.toNat < 0x100 := b.toNat_lt
    rw [ok_bind, ok_bind, sum_of_lt (by omega), ok_bind]
    split
    · have low := byte first
      exact sizedPushAt_eq (by omega)
    split
    · rw [sum_of_lt (by omega)]
      cases data[position + 1]? with
      | none => rfl
      | some length =>
        have low := byte length
        have pushRoom : position + 2 + length.toNat < 2 ^ 64 := by omega
        exact sizedPushAt_eq pushRoom
    split
    · rw [sum_of_lt (by omega), ok_bind]
      have behind : position + 1 + 2 = position + 3 := rfl
      rw [behind]
      rcases range? data (position + 1) (position + 3) with _ | _ | ⟨low, _ | ⟨high, others⟩⟩
      · rfl
      · rfl
      · rfl
      · have low' := byte low
        have high' := byte high
        have pushRoom : position + 3 + (low.toNat + 256 * high.toNat) < 2 ^ 64 := by omega
        exact sizedPushAt_eq pushRoom
    · rfl

end Reading

namespace Script

variable {limit declared width : Nat} {data : Bytes}

theorem sizedParseAt_eq (fits : data.length < 2 ^ 63) (position : Nat) :
    sizedParseAt data position = parseAt data position := by
  fun_induction parseAt data position with
  | case1 position inside e stopped =>
    have same : Reading.sizedCommandAt data position = .error e := by
      rw [Reading.sizedCommandAt_eq (by omega), stopped]
    rw [sizedParseAt, if_pos inside]
    split
    · rename_i halt stopped
      cases stopped.symm.trans same
      rfl
    · rename_i c next read
      cases read.symm.trans same
  | case2 position inside c next read ih =>
    have same : Reading.sizedCommandAt data position = .ok (c, next) := by
      rw [Reading.sizedCommandAt_eq (by omega), read]
    rw [sizedParseAt, if_pos inside]
    split
    · rename_i halt stopped
      cases stopped.symm.trans same
    · rename_i c' next' read
      cases read.symm.trans same
      rw [ih]
  | case3 position outside => rw [sizedParseAt, if_neg outside]

theorem sizedParseAt_zero (fits : data.length < 2 ^ 63) :
    sizedParseAt data 0 = ofResult (parseCommands data) := by
  rw [sizedParseAt_eq fits]
  exact parseAt_append List.length_nil

/-! ## In front of a script -/

theorem sizedParse_of_decode (decoded : VarInt.decode data = .ok (declared, width))
    (within : declared ≤ limit) :
    sizedParse limit data = sizedParseDeclared data width declared := by
  rw [sizedParse, decoded]
  exact if_neg (Nat.not_lt.mpr within)

theorem parse_of_decode (decoded : VarInt.decode data = .ok (declared, width))
    (within : declared ≤ limit) :
    parse limit data =
      if data.length < width + declared then
        .error (.truncatedScript declared (data.length - width))
      else (parseCommands ((data.take (width + declared)).drop width)).map fun s =>
        (s, width + declared) := by
  have found : extent limit data = .ok ⟨width, width + declared⟩ :=
    extent_eq_ok_iff.mpr ⟨declared, width, decoded, within, rfl⟩
  rw [parse, found, ok_bind, Nat.add_sub_cancel_left]
  split
  · rfl
  · cases parseCommands ((data.take (width + declared)).drop width) <;> rfl

/-- A script whose end has room is read as with unbounded sums. -/
theorem sizedParseDeclared_eq (fits : data.length < 2 ^ 63)
    (decoded : VarInt.decode data = .ok (declared, width)) (within : declared ≤ limit)
    (room : width + declared < 2 ^ 64) :
    sizedParseDeclared data width declared = ofResult (parse limit data) := by
  have taken : width ≤ data.length := by
    obtain ⟨-, rfl, rest, rfl⟩ := VarInt.encode_of_decode decoded
    rw [List.length_append]
    exact Nat.le_add_right _ _
  rw [parse_of_decode decoded within, sizedParseDeclared, sum_of_lt room, ok_bind, range?]
  by_cases short : data.length < width + declared
  · rw [if_neg (by omega), if_pos short, difference_of_le taken]
    rfl
  · have part : ((data.take (width + declared)).drop width).length < 2 ^ 63 := by
      rw [List.length_drop, List.length_take]
      omega
    rw [if_pos ⟨Nat.le_add_right _ _, Nat.le_of_not_lt short⟩, if_neg short]
    dsimp only
    rw [sizedParseAt_zero part]
    cases parseCommands ((data.take (width + declared)).drop width) <;> rfl

/-- The length in front of a script passes the limit, and has no room together with the length of
its own encoding. -/
structure Overruns (limit : Nat) (data : Bytes) (declared : Nat) : Prop where
  within : declared ≤ limit
  word : declared < 2 ^ 64
  announced : ∃ rest, data = VarInt.encode declared ++ rest
  exceeds : 2 ^ 64 ≤ (VarInt.encode declared).length + declared

theorem Overruns.length_encode (overruns : Overruns limit data declared) :
    (VarInt.encode declared).length = 9 := by
  have exceeds := overruns.exceeds
  unfold VarInt.encode at exceeds ⊢
  split_ifs at exceeds ⊢ <;>
    simp only [List.length_cons, List.length_nil, Bytes.length_ofNatLE] at exceeds ⊢ <;> omega

theorem Overruns.le_nine_add (overruns : Overruns limit data declared) : 2 ^ 64 ≤ 9 + declared := by
  have exceeds := overruns.exceeds
  rwa [overruns.length_encode] at exceeds

theorem Overruns.decode (overruns : Overruns limit data declared) :
    VarInt.decode data = .ok (declared, 9) := by
  obtain ⟨rest, rfl⟩ := overruns.announced
  rw [VarInt.decode_encode overruns.word, overruns.length_encode]

theorem Overruns.sizedParse_eq (overruns : Overruns limit data declared) :
    sizedParse limit data = crash (.overflow (9 + declared : Nat)) := by
  rw [sizedParse_of_decode overruns.decode overruns.within, sizedParseDeclared,
    sum_of_le overruns.le_nine_add]
  rfl

/-- Without the carry the range ends before it begins. -/
theorem Overruns.range?_eq_none (overruns : Overruns limit data declared) :
    range? data 9 ((9 + declared) % 2 ^ 64) = none := by
  have exceeds := overruns.le_nine_add
  have word := overruns.word
  exact if_neg (by omega)

theorem Overruns.parse_eq (overruns : Overruns limit data declared) (fits : data.length < 2 ^ 63) :
    parse limit data = .error (.truncatedScript declared (data.length - 9)) := by
  have exceeds := overruns.le_nine_add
  rw [parse_of_decode overruns.decode overruns.within]
  exact if_pos (by omega)

theorem sizedParse_of_not_overruns (fits : data.length < 2 ^ 63)
    (room : ∀ declared, ¬Overruns limit data declared) :
    sizedParse limit data = ofResult (parse limit data) := by
  rcases decoded : VarInt.decode data with e | ⟨declared, width⟩
  · rw [sizedParse, parse, extent, decoded]
    rfl
  obtain ⟨word, length, rest, split⟩ := VarInt.encode_of_decode decoded
  by_cases within : declared ≤ limit
  · have room' : width + declared < 2 ^ 64 := by
      refine Nat.lt_of_not_le fun exceeds => room declared ⟨within, word, ⟨rest, split⟩, ?_⟩
      rwa [← length]
    rw [sizedParse_of_decode decoded within]
    exact sizedParseDeclared_eq fits decoded within room'
  · have long : limit < declared := Nat.lt_of_not_le within
    have refused : parse limit data = .error (.declaredTooLong declared limit) := by
      rw [split]
      exact parse_of_declared word long rest
    rw [refused, sizedParse, decoded]
    exact if_pos long

/-- The parser overflows exactly for the lengths that overrun. It then has the announced end as a
sum that is not a number of sixty-four bits; without the carry the range would be empty, and the
script be reported as cut short, as it is with unbounded numbers. In all other cases, and so under
every limit that leaves room for an encoding, the parser gives what it gives with unbounded
numbers. -/
theorem sizedParse_overflows_iff (limit : Nat) {data : Bytes} (fits : data.length < 2 ^ 63) :
    ((∃ c, sizedParse limit data = crash c) ↔ ∃ declared, Overruns limit data declared) ∧
    (∀ declared, Overruns limit data declared →
      sizedParse limit data = crash (.overflow (9 + declared : Nat)) ∧
      range? data 9 ((9 + declared) % 2 ^ 64) = none ∧
      parse limit data = .error (.truncatedScript declared (data.length - 9))) ∧
    ((∀ declared, ¬Overruns limit data declared) →
      sizedParse limit data = ofResult (parse limit data)) ∧
    (limit + 9 < 2 ^ 64 → sizedParse limit data = ofResult (parse limit data)) := by
  refine ⟨?_, fun declared overruns => ⟨overruns.sizedParse_eq, overruns.range?_eq_none,
    overruns.parse_eq fits⟩, sizedParse_of_not_overruns fits, fun room => ?_⟩
  · constructor
    · rintro ⟨c, crashed⟩
      by_contra none
      rw [sizedParse_of_not_overruns fits (not_exists.mp none)] at crashed
      exact ofResult_ne_crash crashed
    · rintro ⟨declared, overruns⟩
      exact ⟨_, overruns.sizedParse_eq⟩
  · refine sizedParse_of_not_overruns fits fun declared overruns => ?_
    have exceeds := overruns.le_nine_add
    have within := overruns.within
    omega

section Example

/-- The encoding of the largest number. -/
def ones : Bytes := List.replicate 9 0xff

/-- Not every announced end has room in sixty-four bits. -/
theorem sizedParse_crashes : ¬∀ (limit : Nat) (data : Bytes),
    limit < 2 ^ 64 → data.length < 2 ^ 63 → ∀ c, sizedParse limit data ≠ crash c := by
  intro never
  have crashed : sizedParse (2 ^ 64 - 1) ones = crash (.overflow (2 ^ 64 + 8)) := rfl
  exact never (2 ^ 64 - 1) ones (by decide) (by decide) _ crashed

/-- The largest length overruns under the largest limit, and none under a limit of ten thousand. -/
theorem sizedParse_overflows_iff_ones :
    ones.length < 2 ^ 63 ∧ Overruns (2 ^ 64 - 1) ones (2 ^ 64 - 1) ∧
      sizedParse (2 ^ 64 - 1) ones = crash (.overflow (2 ^ 64 + 8)) ∧
      parse (2 ^ 64 - 1) ones = .error (.truncatedScript (2 ^ 64 - 1) 0) ∧
      sizedParse 10000 ones = fail (.declaredTooLong (2 ^ 64 - 1) 10000) ∧
      sizedParse 10000 [0x01, 0x51] = .ok ([.op 0x51], 2) := by
  have fits : ones.length < 2 ^ 63 := by decide
  have overruns : Overruns (2 ^ 64 - 1) ones (2 ^ 64 - 1) :=
    ⟨Nat.le_refl _, by decide, ⟨[], by decide⟩, by decide⟩
  obtain ⟨-, largest, -, -⟩ := sizedParse_overflows_iff (2 ^ 64 - 1) fits
  obtain ⟨-, -, -, refused⟩ := sizedParse_overflows_iff 10000 fits
  obtain ⟨-, -, -, read⟩ := @sizedParse_overflows_iff 10000 [0x01, 0x51] (by decide)
  obtain ⟨crashed, -, short⟩ := largest _ overruns
  refine ⟨fits, overruns, crashed, short, ?_, ?_⟩
  · rw [refused (by decide)]
    rfl
  · have spelled : Form [.op 0x51] [0x51] := .cons (.op (by decide)) .nil
    have parsed : parse 10000 [0x01, 0x51] = .ok ([.op 0x51], 2) :=
      parse_eq_ok_iff.mpr ⟨[0x51], [], rfl, spelled, by decide, by decide, rfl⟩
    rw [read (by decide), parsed]
    rfl

end Example

end Script

end CoinScript
