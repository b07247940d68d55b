import CoinScript.Proofs.Script.RoundTrip

/-!
# Templates on the wire

A template is recognised among the commands of a script, after the script has
been read. Reading does not keep how the length of a push was noted, and so
both templates are recognised from three byte strings for every hash. Only the
shortest of the three is ever written. Bytes that are written as they were
read are therefore recognised exactly when they are the template itself.
-/

namespace CoinScript

/-! ## Forms of a script, command by command -/

theorem Command.form_op_iff {code : UInt8} {form : Bytes} :
    Form (.op code) form ↔ ¬Opcode.AnnouncesPush code ∧ form = [code] := by
  constructor
  · intro spelled
    cases spelled with
    | op ordinary => exact ⟨ordinary, rfl⟩
  · rintro ⟨ordinary, rfl⟩
    exact .op ordinary

namespace Script

variable {front back hash data raw : Bytes} {s t : Script} {limit : Nat}

/-- The byte strings that the push of a hash is read from: the length stands for itself, after `4c`,
or in two bytes after `4d`. -/
def hashForms (hash : Bytes) : List Bytes :=
  [0x14 :: hash, Opcode.pushData1 :: 0x14 :: hash, Opcode.pushData2 :: 0x14 :: 0x00 :: hash]

theorem form_hash_iff {form : Bytes} (length : hash.length = hashLength) :
    Command.Form (.push hash) form ↔ form ∈ hashForms hash := by
  have one : hash.length.toUInt8 = 0x14 := by
    rw [length]
    rfl
  have two : Bytes.ofNatLE 2 hash.length = [0x14, 0x00] := by
    rw [length]
    rfl
  simp only [hashForms, List.mem_cons, List.not_mem_nil, or_false]
  constructor
  · intro spelled
    cases spelled with
    | direct =>
      rw [one]
      exact Or.inl rfl
    | oneByte =>
      rw [one]
      exact Or.inr (Or.inl rfl)
    | twoBytes =>
      rw [two]
      exact Or.inr (Or.inr rfl)
  · have long : hash.length = 20 := length
    have direct : Command.Form (.push hash) _ := .direct (by omega) (by omega)
    have oneByte : Command.Form (.push hash) _ := .oneByte (by omega)
    have twoBytes : Command.Form (.push hash) _ := .twoBytes (by omega)
    rw [one] at direct oneByte
    rw [two] at twoBytes
    rintro (rfl | rfl | rfl)
    · exact direct
    · exact oneByte
    · exact twoBytes

/-! ## A hash between opcodes -/

/-- The push of a hash with opcodes before and after it. Both templates are of this shape. -/
def around (front back hash : Bytes) : Script :=
  front.map .op ++ .push hash :: back.map .op

theorem payToScriptHash_eq (hash : Bytes) :
    payToScriptHash hash = around [Opcode.opHash160] [Opcode.opEqual] hash := rfl

theorem payToKeyHash_eq (hash : Bytes) : payToKeyHash hash =
    around [Opcode.opDup, Opcode.opHash160] [Opcode.opEqualVerify, Opcode.opCheckSig] hash := rfl

theorem form_ops_append_iff (ordinary : ∀ code ∈ front, ¬Opcode.AnnouncesPush code) :
    Form (front.map .op ++ s) data ↔ ∃ raw, s.Form raw ∧ data = front ++ raw := by
  induction front generalizing data with
  | nil => simp
  | cons code front ih =>
    obtain ⟨first, others⟩ := List.forall_mem_cons.mp ordinary
    rw [List.map_cons, List.cons_append, form_cons_iff]
    constructor
    · rintro ⟨form, tail, spelled, rest, rfl⟩
      obtain ⟨-, rfl⟩ := Command.form_op_iff.mp spelled
      obtain ⟨raw, spelled, rfl⟩ := (ih others).mp rest
      exact ⟨raw, spelled, rfl⟩
    · rintro ⟨raw, spelled, rfl⟩
      exact ⟨[code], front ++ raw, Command.form_op_iff.mpr ⟨first, rfl⟩,
        (ih others).mpr ⟨raw, spelled, rfl⟩, rfl⟩

theorem serializeRaw_ops_append (front : Bytes) (written : serializeRaw s = .ok raw) :
    serializeRaw (front.map .op ++ s) = .ok (front ++ raw) := by
  induction front with
  | nil => exact written
  | cons code front ih =>
    exact serializeRaw_cons_eq_ok_iff.mpr ⟨[code], front ++ raw, rfl, ih, rfl⟩

section Around

variable (ordinary : ∀ code ∈ front ++ back, ¬Opcode.AnnouncesPush code)
  (length : hash.length = hashLength)

include ordinary length in
theorem form_around_iff : (around front back hash).Form data ↔
    ∃ form ∈ hashForms hash, data = front ++ form ++ back := by
  have before : ∀ code ∈ front, ¬Opcode.AnnouncesPush code :=
    fun code member => ordinary code (List.mem_append_left back member)
  have behind : ∀ code ∈ back, ¬Opcode.AnnouncesPush code :=
    fun code member => ordinary code (List.mem_append_right front member)
  have closing {raw : Bytes} : Form (back.map .op) raw ↔ raw = back := by
    have ops : Form (back.map .op ++ []) raw ↔ _ := form_ops_append_iff behind
    simpa [form_nil_iff] using ops
  simp only [around, form_ops_append_iff before, form_cons_iff, form_hash_iff length, closing]
  constructor
  · rintro ⟨_, ⟨form, raw, member, closed, rfl⟩, rfl⟩
    rw [closed]
    exact ⟨form, member, (List.append_assoc front form back).symm⟩
  · rintro ⟨form, member, rfl⟩
    exact ⟨form ++ back, ⟨form, back, member, rfl, rfl⟩, List.append_assoc front form back⟩

include length in
/-- Written, the push of the hash has the shortest of its forms. -/
theorem serializeRaw_around :
    serializeRaw (around front back hash) = .ok (front ++ 0x14 :: hash ++ back) := by
  have push : serializeCommand (.push hash) = .ok (0x14 :: hash) := by
    rw [serializeCommand, if_pos (by rw [length]; decide), length]
    rfl
  have closing : serializeRaw (back.map .op) = .ok back := by
    have ops := serializeRaw_ops_append (s := []) back rfl
    simpa using ops
  have inner : serializeRaw (.push hash :: back.map .op) = .ok (0x14 :: hash ++ back) :=
    serializeRaw_cons_eq_ok_iff.mpr ⟨_, _, push, closing, rfl⟩
  rw [List.append_assoc]
  exact serializeRaw_ops_append front inner

end Around

/-- What is recognised of the bytes that a script was read from, if a script is recognised by its
commands alone. -/
theorem isSome_iff_of_parseRaw (front back : Bytes) {hash? : Script → Option Bytes}
    (recognised : ∀ {s hash}, hash? s = some hash ↔ s = around front back hash ∧ hash.length = hashLength)
    (ordinary : ∀ code ∈ front ++ back, ¬Opcode.AnnouncesPush code)
    (read : parseRaw limit data = .ok s) :
    ((hash? s).isSome = true ↔ ∃ hash form, hash.length = hashLength ∧ form ∈ hashForms hash ∧
        data = front ++ form ++ back) ∧
      (serializeRaw s = .ok data → ((hash? s).isSome = true ↔
        ∃ hash, hash.length = hashLength ∧ serializeRaw (around front back hash) = .ok data)) := by
  obtain ⟨-, spelled⟩ := parseRaw_eq_ok_iff.mp read
  have byForm : (hash? s).isSome = true ↔ ∃ hash form, hash.length = hashLength ∧
      form ∈ hashForms hash ∧ data = front ++ form ++ back := by
    rw [Option.isSome_iff_exists]
    constructor
    · rintro ⟨hash, found⟩
      obtain ⟨rfl, length⟩ := recognised.mp found
      obtain ⟨form, member, same⟩ := (form_around_iff ordinary length).mp spelled
      exact ⟨hash, form, length, member, same⟩
    · rintro ⟨hash, form, length, member, same⟩
      have template := (form_around_iff ordinary length).mpr ⟨form, member, same⟩
      exact ⟨hash, recognised.mpr ⟨form_unique spelled template, length⟩⟩
  refine ⟨byForm, ?_⟩
  intro written
  constructor
  · intro found
    obtain ⟨hash, found⟩ := Option.isSome_iff_exists.mp found
    obtain ⟨rfl, length⟩ := recognised.mp found
    exact ⟨hash, length, written⟩
  · rintro ⟨hash, length, template⟩
    rw [serializeRaw_around length] at template
    exact byForm.mpr ⟨hash, _, length, List.mem_cons_self, (Except.ok.inj template).symm⟩

/-- A script that was read is one of the templates if and only if its bytes are those of the template,
with the push of the hash in any of its forms. If the bytes are written as they were read, they are
those of the template as it is written. -/
theorem isTemplate_iff_of_parseRaw (read : parseRaw limit data = .ok s) :
    (s.isPayToScriptHash = true ↔ ∃ hash form, hash.length = hashLength ∧ form ∈ hashForms hash ∧
        data = [Opcode.opHash160] ++ form ++ [Opcode.opEqual]) ∧
      (s.isPayToKeyHash = true ↔ ∃ hash form, hash.length = hashLength ∧ form ∈ hashForms hash ∧
        data = [Opcode.opDup, Opcode.opHash160] ++ form ++
          [Opcode.opEqualVerify, Opcode.opCheckSig]) ∧
      (serializeRaw s = .ok data →
        (s.isPayToScriptHash = true ↔ ∃ hash, hash.length = hashLength ∧
          serializeRaw (payToScriptHash hash) = .ok data) ∧
        (s.isPayToKeyHash = true ↔ ∃ hash, hash.length = hashLength ∧
          serializeRaw (payToKeyHash hash) = .ok data)) := by
  obtain ⟨scriptForms, scriptWritten⟩ := isSome_iff_of_parseRaw [Opcode.opHash160] [Opcode.opEqual]
    scriptHash?_eq_some_iff (by decide +kernel) read
  obtain ⟨keyForms, keyWritten⟩ := isSome_iff_of_parseRaw [Opcode.opDup, Opcode.opHash160]
    [Opcode.opEqualVerify, Opcode.opCheckSig] keyHash?_eq_some_iff (by decide +kernel) read
  exact ⟨scriptForms, keyForms, fun written => ⟨scriptWritten written, keyWritten written⟩⟩

section Example

/-- Twenty bytes, as many as a hash has. -/
def zeros : Bytes := List.replicate 20 0x00

/-- With two bytes for the length of the hash, the bytes are a template. With the length alone they are
also written as they were read. -/
theorem isTemplate_iff_of_parseRaw_zeros :
    (parseRaw 10000 ([0xa9, 0x4d, 0x14, 0x00] ++ zeros ++ [0x87]) = .ok (payToScriptHash zeros) ∧
      (payToScriptHash zeros).isPayToScriptHash = true) ∧
    (parseRaw 10000 ([0x76, 0xa9, 0x14] ++ zeros ++ [0x88, 0xac]) = .ok (payToKeyHash zeros) ∧
      serializeRaw (payToKeyHash zeros) = .ok ([0x76, 0xa9, 0x14] ++ zeros ++ [0x88, 0xac]) ∧
      (payToKeyHash zeros).isPayToKeyHash = true) := by
  have padded : parseRaw 10000 ([0xa9, 0x4d, 0x14, 0x00] ++ zeros ++ [0x87]) =
      .ok (payToScriptHash zeros) := by
    decide +kernel
  have short : parseRaw 10000 ([0x76, 0xa9, 0x14] ++ zeros ++ [0x88, 0xac]) =
      .ok (payToKeyHash zeros) := by
    decide +kernel
  have written : serializeRaw (payToKeyHash zeros) =
      .ok ([0x76, 0xa9, 0x14] ++ zeros ++ [0x88, 0xac]) := by
    decide +kernel
  constructor
  · obtain ⟨scripts, -, -⟩ := isTemplate_iff_of_parseRaw padded
    exact ⟨padded, scripts.mpr ⟨zeros, 0x4d :: 0x14 :: 0x00 :: zeros, rfl, by decide, rfl⟩⟩
  · obtain ⟨-, -, same⟩ := isTemplate_iff_of_parseRaw short
    exact ⟨short, written, (same written).2.mpr ⟨zeros, rfl, written⟩⟩

/-- Bytes that no template is written as, because the length of the hash follows `4c`, are recognised
as both templates. -/
theorem isTemplate_unwritten :
    (parseRaw 10000 ([0xa9, 0x4c, 0x14] ++ zeros ++ [0x87]) = .ok (payToScriptHash zeros) ∧
      (payToScriptHash zeros).isPayToScriptHash = true ∧
      ¬∃ hash, hash.length = hashLength ∧
        serializeRaw (payToScriptHash hash) = .ok ([0xa9, 0x4c, 0x14] ++ zeros ++ [0x87])) ∧
    (parseRaw 10000 ([0x76, 0xa9, 0x4c, 0x14] ++ zeros ++ [0x88, 0xac]) = .ok (payToKeyHash zeros) ∧
      (payToKeyHash zeros).isPayToKeyHash = true ∧
      ¬∃ hash, hash.length = hashLength ∧ serializeRaw (payToKeyHash hash) =
        .ok ([0x76, 0xa9, 0x4c, 0x14] ++ zeros ++ [0x88, 0xac])) := by
  refine ⟨⟨by decide +kernel, by decide, ?_⟩, by decide +kernel, by decide, ?_⟩
  · rintro ⟨hash, length, written⟩
    rw [payToScriptHash_eq, serializeRaw_around length] at written
    exact absurd (congrArg (·[1]?) (Except.ok.inj written)) (by simp)
  · rintro ⟨hash, length, written⟩
    rw [payToKeyHash_eq, serializeRaw_around length] at written
    exact absurd (congrArg (·[2]?) (Except.ok.inj written)) (by simp)

end Example

end Script

end CoinScript
