import CoinScript.Proofs.Encoding.VarInt
import CoinScript.Proofs.Sequencing
import CoinScript.Script.Wire

/-!
# The grammar of scripts

A command has a few forms: an opcode is its own byte, and the data of a push
follows its length in one of three notations. A script is read from the forms
of its commands, one after another, and from nothing else. Its full form has
the encoding of their total length in front.
-/

namespace CoinScript

/-- The byte is a length or says where the length stands. -/
def Opcode.AnnouncesPush (code : UInt8) : Prop := 0x01 ≤ code ∧ code ≤ pushData2

instance : DecidablePred Opcode.AnnouncesPush := fun _ => inferInstanceAs (Decidable (_ ∧ _))

theorem Opcode.announcesPush_iff {code : UInt8} : AnnouncesPush code ↔
    (0x01 ≤ code ∧ code ≤ 0x4b) ∨ code = pushData1 ∨ code = pushData2 := by
  unfold AnnouncesPush pushData1 pushData2
  simp only [UInt8.le_iff_toNat_le, ← UInt8.toNat_inj, UInt8.reduceToNat]
  omega

/-- The byte strings that a command is read from. -/
inductive Command.Form : Command → Bytes → Prop
  | op {code : UInt8} (ordinary : ¬Opcode.AnnouncesPush code) : Form (.op code) [code]
  | direct {data : Bytes} (nonempty : 1 ≤ data.length) (short : data.length ≤ 75) :
      Form (.push data) (data.length.toUInt8 :: data)
  | oneByte {data : Bytes} (fits : data.length ≤ 255) :
      Form (.push data) (Opcode.pushData1 :: data.length.toUInt8 :: data)
  | twoBytes {data : Bytes} (fits : data.length ≤ 65535) :
      Form (.push data) (Opcode.pushData2 :: Bytes.ofNatLE 2 data.length ++ data)

/-- The forms of the commands of a script, one after another. -/
inductive Script.Form : Script → Bytes → Prop
  | nil : Form [] []
  | cons {c : Command} {s : Script} {form raw : Bytes} (first : c.Form form) (others : Form s raw) :
      Form (c :: s) (form ++ raw)

/-! ## One command -/

namespace Reading

variable {first : UInt8} {offset length : Nat} {bytes : Bytes} {r : Reading}

theorem push_eq_ok_iff : push length offset bytes = .ok r ↔
    ∃ data rest, bytes = data ++ rest ∧ data.length = length ∧
      r = ⟨.push data, rest, offset + length⟩ := by
  constructor
  · intro read
    unfold push at read
    split at read
    · cases read
    · rename_i data rest cut
      cases read
      obtain ⟨split, count⟩ := Bytes.splitAt?_eq_some_iff.mp cut
      exact ⟨data, rest, split, count, rfl⟩
  · rintro ⟨data, rest, split, count, rfl⟩
    have cut := Bytes.splitAt?_eq_some_iff.mpr ⟨split, count⟩
    simp only [push, cut]

/-- A byte that gives the length of the data of a push is the low byte of that length. -/
theorem exists_data_of_push {low : UInt8} (read : push low.toNat offset bytes = .ok r) :
    ∃ data, r.command = .push data ∧ bytes = data ++ r.rest ∧ data.length = low.toNat ∧
      data.length.toUInt8 = low := by
  obtain ⟨data, rest, rfl, count, rfl⟩ := push_eq_ok_iff.mp read
  refine ⟨data, rfl, rfl, count, ?_⟩
  rw [count]
  exact UInt8.ofNat_toNat

theorem form_of_direct (announced : 0x01 ≤ first ∧ first ≤ 0x4b)
    (read : push first.toNat offset bytes = .ok r) :
    ∃ form, r.command.Form form ∧ first :: bytes = form ++ r.rest := by
  obtain ⟨data, pushed, cut, count, same⟩ := exists_data_of_push read
  have nonempty : 1 ≤ first.toNat := UInt8.le_iff_toNat_le.mp announced.1
  have short : first.toNat ≤ 75 := UInt8.le_iff_toNat_le.mp announced.2
  rw [pushed, cut]
  refine ⟨_, .direct (by omega) (by omega), ?_⟩
  rw [same]
  rfl

theorem form_of_oneByte {low : UInt8} (read : push low.toNat offset bytes = .ok r) :
    ∃ form, r.command.Form form ∧ Opcode.pushData1 :: low :: bytes = form ++ r.rest := by
  obtain ⟨data, pushed, cut, count, same⟩ := exists_data_of_push read
  have bound := low.toNat_lt
  rw [pushed, cut]
  refine ⟨_, .oneByte (by omega), ?_⟩
  rw [same]
  rfl

theorem form_of_twoBytes {low high : UInt8}
    (read : push (low.toNat + 256 * high.toNat) offset bytes = .ok r) :
    ∃ form, r.command.Form form ∧ Opcode.pushData2 :: low :: high :: bytes = form ++ r.rest := by
  obtain ⟨data, rest, rfl, count, rfl⟩ := push_eq_ok_iff.mp read
  have bound := low.toNat_lt
  have bound' := high.toNat_lt
  have same : Bytes.ofNatLE 2 data.length = [low, high] := by
    rw [count]
    exact Bytes.ofNatLE_toNatLE [low, high]
  refine ⟨_, .twoBytes (by omega), ?_⟩
  rw [same]
  rfl

/-- The command that is read stands at the front in one of its forms. -/
theorem form_of_command? (read : command? first offset bytes = .ok r) :
    ∃ form, r.command.Form form ∧ first :: bytes = form ++ r.rest := by
  unfold command? at read
  split at read
  · rename_i announced
    exact form_of_direct announced read
  rename_i undirected
  split at read
  · rename_i one
    split at read
    · rw [one]
      exact form_of_oneByte read
    · cases read
  rename_i unmarked
  split at read
  · rename_i two
    split at read
    · rw [two]
      exact form_of_twoBytes read
    · cases read
  · rename_i undoubled
    cases read
    refine ⟨[first], .op ?_, rfl⟩
    rw [Opcode.announcesPush_iff]
    exact fun announced => announced.elim undirected fun marked => marked.elim unmarked undoubled

/-- A form of a command is read as that command, whatever follows it. -/
theorem command?_of_form {c : Command} {form : Bytes} (spelled : c.Form form) (offset : Nat)
    (rest : Bytes) : ∃ first tail stop, form = first :: tail ∧
      command? first offset (tail ++ rest) = .ok ⟨c, rest, stop⟩ := by
  cases spelled with
  | @op code ordinary =>
    rw [Opcode.announcesPush_iff, not_or, not_or] at ordinary
    obtain ⟨undirected, unmarked, undoubled⟩ := ordinary
    refine ⟨code, [], offset, rfl, ?_⟩
    unfold command?
    rw [if_neg undirected, if_neg unmarked, if_neg undoubled]
    rfl
  | @direct data nonempty short =>
    have value : data.length.toUInt8.toNat = data.length := Bytes.toNat_length_toUInt8 (by omega)
    have announced : 0x01 ≤ data.length.toUInt8 ∧ data.length.toUInt8 ≤ 0x4b := by
      rw [UInt8.le_iff_toNat_le, UInt8.le_iff_toNat_le, value]
      exact ⟨nonempty, short⟩
    refine ⟨data.length.toUInt8, data, offset + data.length, rfl, ?_⟩
    unfold command?
    rw [if_pos announced, value, push_eq_ok_iff]
    exact ⟨data, rest, rfl, rfl, rfl⟩
  | @oneByte data fits =>
    have value := Bytes.toNat_length_toUInt8 fits
    refine ⟨Opcode.pushData1, data.length.toUInt8 :: data, offset + 1 + data.length, rfl, ?_⟩
    unfold command?
    rw [if_neg (by decide), if_pos rfl]
    exact push_eq_ok_iff.mpr ⟨data, rest, rfl, value.symm, by rw [value]⟩
  | @twoBytes data fits =>
    have value : Bytes.toNatLE (Bytes.ofNatLE 2 data.length) = data.length :=
      Bytes.toNatLE_ofNatLE_of_lt (by omega)
    refine ⟨Opcode.pushData2, Bytes.ofNatLE 2 data.length ++ data, offset + 2 + data.length, rfl, ?_⟩
    unfold command?
    rw [if_neg (by decide), if_neg (by decide), if_pos rfl]
    refine push_eq_ok_iff.mpr ⟨data, rest, rfl, value.symm, ?_⟩
    exact congrArg (fun n => (⟨.push data, rest, offset + 2 + n⟩ : Reading)) value.symm

end Reading

/-! ## Whole scripts -/

namespace Script

variable {limit offset used : Nat} {data raw : Bytes} {s : Script}

theorem form_nil_iff : Form [] data ↔ data = [] := by
  constructor
  · intro spelled
    cases spelled
    rfl
  · rintro rfl
    exact .nil

theorem form_cons_iff {c : Command} :
    Form (c :: s) data ↔ ∃ form raw, c.Form form ∧ s.Form raw ∧ data = form ++ raw := by
  constructor
  · intro spelled
    cases spelled with
    | cons first others => exact ⟨_, _, first, others, rfl⟩
  · rintro ⟨form, raw, first, others, rfl⟩
    exact .cons first others

theorem parseFrom_cons {first : UInt8} {rest : Bytes} {r : Reading}
    (read : Reading.command? first (offset + 1) rest = .ok r) :
    parseFrom offset (first :: rest) = (parseFrom r.offset r.rest).map (r.command :: ·) := by
  rw [parseFrom]
  split
  · rename_i failed
    rw [read] at failed
    cases failed
  · rename_i other
    rw [read] at other
    cases other
    rfl

theorem form_of_parseFrom (read : parseFrom offset data = .ok s) : s.Form data := by
  fun_induction parseFrom offset data generalizing s with
  | case1 =>
    cases read
    exact .nil
  | case2 => cases read
  | case3 offset first rest r one ih =>
    obtain ⟨form, spelled, split⟩ := Reading.form_of_command? one
    obtain ⟨others, tail, rfl⟩ := map_eq_ok_iff.mp read
    rw [split]
    exact .cons spelled (ih tail)

theorem parseFrom_of_form (spelled : s.Form data) (offset : Nat) : parseFrom offset data = .ok s := by
  induction spelled generalizing offset with
  | nil => rw [parseFrom]
  | @cons c s form raw one _ ih =>
    obtain ⟨first, tail, stop, rfl, read⟩ := Reading.command?_of_form one (offset + 1) raw
    rw [List.cons_append, parseFrom_cons read, ih]
    rfl

/-- Reading commands accepts the forms of a script and nothing else. -/
theorem parseFrom_eq_ok_iff : parseFrom offset data = .ok s ↔ s.Form data :=
  ⟨form_of_parseFrom, fun spelled => parseFrom_of_form spelled offset⟩

/-- No byte string is read as two scripts. -/
theorem form_unique {t : Script} (first : s.Form data) (second : t.Form data) : s = t :=
  Except.ok.inj ((parseFrom_of_form first 0).symm.trans (parseFrom_of_form second 0))

theorem parseRaw_eq_ok_iff : parseRaw limit data = .ok s ↔ data.length ≤ limit ∧ s.Form data := by
  rw [parseRaw]
  split
  · rename_i long
    exact iff_of_false nofun fun h => absurd h.1 (Nat.not_le_of_lt long)
  · rename_i fits
    rw [parseCommands, parseFrom_eq_ok_iff]
    exact (and_iff_right (Nat.le_of_not_lt fits)).symm

theorem parseRaw_nil_iff : parseRaw limit [] = .ok s ↔ s = [] := by
  have empty : parseRaw limit [] = .ok [] :=
    parseRaw_eq_ok_iff.mpr ⟨Nat.zero_le limit, .nil⟩
  rw [empty]
  exact ⟨fun same => (Except.ok.inj same).symm, fun same => congrArg Except.ok same.symm⟩

theorem extent_eq_ok_iff {e : Extent} : extent limit data = .ok e ↔
    ∃ declared width, VarInt.decode data = .ok (declared, width) ∧ declared ≤ limit ∧
      e = ⟨width, width + declared⟩ := by
  unfold extent
  rw [bind_eq_ok_iff]
  constructor
  · rintro ⟨⟨declared, width⟩, decoded, checked⟩
    rw [mapError_eq_ok_iff] at decoded
    dsimp only at checked
    split at checked
    · cases checked
    · rename_i fits
      cases checked
      exact ⟨declared, width, decoded, Nat.le_of_not_lt fits, rfl⟩
  · rintro ⟨declared, width, decoded, fits, rfl⟩
    refine ⟨(declared, width), mapError_eq_ok_iff.mpr decoded, ?_⟩
    dsimp only
    rw [if_neg (Nat.not_lt_of_le fits)]
    rfl

/-- With the length in front known, so many bytes behind it are read as commands. -/
theorem parse_eq_ok_iff_of_extent {front tail : Bytes} {declared : Nat}
    (found : extent limit (front ++ tail) = .ok ⟨front.length, front.length + declared⟩) :
    parse limit (front ++ tail) = .ok (s, used) ↔
      declared ≤ tail.length ∧ s.Form (tail.take declared) ∧ used = front.length + declared := by
  have cut : ((front ++ tail).take (front.length + declared)).drop front.length =
      tail.take declared := by
    rw [List.take_length_add_append, List.drop_left]
  have available : ¬(front ++ tail).length < front.length + declared ↔ declared ≤ tail.length := by
    rw [List.length_append]
    omega
  rw [parse, found, ok_bind, ← available]
  dsimp only
  rw [cut]
  split
  · rename_i missing
    exact iff_of_false nofun fun h => h.1 missing
  · rename_i enough
    rw [and_iff_right enough, ← parseFrom_eq_ok_iff, ← parseCommands]
    refine bind_eq_ok_iff.trans ?_
    constructor
    · rintro ⟨commands, parsed, made⟩
      cases made
      exact ⟨parsed, rfl⟩
    · rintro ⟨parsed, rfl⟩
      exact ⟨s, parsed, rfl⟩

/-- A full form is read at the front of whatever follows it, and nothing else is. -/
theorem parse_eq_ok_iff : parse limit data = .ok (s, used) ↔
    ∃ raw rest, data = VarInt.encode raw.length ++ (raw ++ rest) ∧ s.Form raw ∧
      raw.length < 2 ^ 64 ∧ raw.length ≤ limit ∧
      used = (VarInt.encode raw.length ++ raw).length := by
  constructor
  · intro read
    obtain ⟨e, found, -⟩ := bind_eq_ok_iff.mp read
    obtain ⟨declared, width, decoded, fits, rfl⟩ := extent_eq_ok_iff.mp found
    obtain ⟨word, rfl, tail, rfl⟩ := VarInt.encode_of_decode decoded
    obtain ⟨enough, spelled, rfl⟩ := (parse_eq_ok_iff_of_extent found).mp read
    have length : (tail.take declared).length = declared := List.length_take_of_le enough
    refine ⟨tail.take declared, tail.drop declared, ?_, spelled, ?_⟩
    · rw [length, List.take_append_drop]
    · rw [List.length_append, length]
      exact ⟨word, fits, rfl⟩
  · rintro ⟨raw, rest, rfl, spelled, word, fits, rfl⟩
    have decoded := VarInt.decode_encode word (raw ++ rest)
    have found := extent_eq_ok_iff.mpr ⟨_, _, decoded, fits, rfl⟩
    refine (parse_eq_ok_iff_of_extent found).mpr ⟨?_, ?_, List.length_append⟩
    · rw [List.length_append]
      exact Nat.le_add_right _ _
    · rw [List.take_left]
      exact spelled

/-- A length above the limit is refused before anything else is looked at. -/
theorem parse_of_declared {declared : Nat} (word : declared < 2 ^ 64) (long : limit < declared)
    (rest : Bytes) : parse limit (VarInt.encode declared ++ rest) =
      .error (.declaredTooLong declared limit) := by
  have refused : extent limit (VarInt.encode declared ++ rest) =
      .error (.declaredTooLong declared limit) := by
    rw [extent, VarInt.decode_encode word]
    change (if limit < declared then _ else _) = _
    rw [if_pos long]
    rfl
  rw [parse, refused]
  rfl

end Script

end CoinScript
