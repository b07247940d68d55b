import CoinScript.Proofs.Script.Grammar
import CoinScript.Script.Spend

/-!
# Written scripts

Writing uses the shortest form of every command. A canonical script is read
back from what was written, in raw and in full form, and a spend from written
scripts is an evaluation of the two as one. A script that was read is written
with no more bytes than it was read from, and an empty push, which is written
as the opcode `00`, is all that changes when it is read again.
-/

namespace CoinScript

namespace Command

/-- The command that is read back: an empty push is written as the opcode `00`. -/
def normal : Command → Command
  | push [] => op 0x00
  | c => c

/-- The command is not written as something that announces a push. -/
def Legible : Command → Prop
  | op code => ¬Opcode.AnnouncesPush code
  | push _ => True

/-- The command is read back as it was written. -/
def Canonical : Command → Prop
  | op code => ¬Opcode.AnnouncesPush code
  | push data => 1 ≤ data.length ∧ data.length < Script.maxPush

instance : DecidablePred Canonical
  | op code => inferInstanceAs (Decidable ¬Opcode.AnnouncesPush code)
  | push data => inferInstanceAs (Decidable (1 ≤ data.length ∧ data.length < Script.maxPush))

theorem Canonical.legible {c : Command} (canonical : c.Canonical) : c.Legible := by
  cases c with
  | op code => exact canonical
  | push data => trivial

theorem Canonical.normal_eq {c : Command} (canonical : c.Canonical) : c.normal = c := by
  rcases c with code | _ | ⟨b, data⟩
  · rfl
  · exact absurd canonical.1 (Nat.not_succ_le_zero 0)
  · rfl

theorem Form.legible {c : Command} {form : Bytes} (spelled : c.Form form) : c.Legible := by
  cases spelled with
  | op ordinary => exact ordinary
  | direct nonempty short => trivial
  | oneByte fits => trivial
  | twoBytes fits => trivial

end Command

namespace Script

def normal (s : Script) : Script := s.map Command.normal

/-- No opcode of the script announces a push, and no push is empty or too long to be written. -/
def Canonical (s : Script) : Prop := ∀ c ∈ s, c.Canonical

instance : DecidablePred Canonical := fun s => inferInstanceAs (Decidable (∀ c ∈ s, c.Canonical))

theorem Canonical.normal_eq {s : Script} (canonical : s.Canonical) : s.normal = s := by
  have same : s.map Command.normal = s.map id :=
    List.map_congr_left fun c member => (canonical c member).normal_eq
  rw [normal, same, List.map_id]

theorem Form.legible {s : Script} {raw : Bytes} (spelled : s.Form raw) : ∀ c ∈ s, c.Legible := by
  induction spelled with
  | nil => exact fun c member => nomatch member
  | cons first _ ih => exact List.forall_mem_cons.mpr ⟨first.legible, ih⟩

variable {c : Command} {s : Script} {data form raw full : Bytes}

/-! ## Writing a command -/

theorem serializeCommand_normal (c : Command) : serializeCommand c.normal = serializeCommand c := by
  rcases c with code | _ | ⟨b, data⟩ <;> rfl

theorem exists_serializeCommand_iff : (∃ form, serializeCommand c = .ok form) ↔
    ∀ data, c = .push data → data.length < maxPush := by
  cases c with
  | op code => exact iff_of_true ⟨[code], rfl⟩ fun data same => nomatch same
  | push data =>
    constructor
    · rintro ⟨form, written⟩ _ same
      cases same
      simp only [serializeCommand] at written
      split_ifs at written with direct oneByte twoBytes
      · exact Nat.lt_of_le_of_lt direct (by decide)
      · exact Nat.lt_of_le_of_lt oneByte (by decide)
      · exact twoBytes
    · intro short
      have twoBytes := short data rfl
      simp only [serializeCommand, if_pos twoBytes]
      split_ifs <;> exact ⟨_, rfl⟩

/-- What is written is a form of the command that is read back. -/
theorem form_of_serializeCommand (legible : c.Legible) (written : serializeCommand c = .ok form) :
    c.normal.Form form := by
  cases c with
  | op code =>
    cases written
    exact .op legible
  | push data =>
    cases data with
    | nil =>
      cases written
      exact .op (by decide)
    | cons b data =>
      simp only [serializeCommand] at written
      split_ifs at written with direct oneByte twoBytes
      · cases written
        exact .direct (Nat.succ_pos data.length) direct
      · cases written
        exact .oneByte oneByte
      · cases written
        unfold maxPush at twoBytes
        exact .twoBytes (by omega)

/-- No form of a command is shorter than the one that is written. -/
theorem length_le_of_command {spelling : Bytes} (spelled : c.Form spelling)
    (written : serializeCommand c = .ok form) : form.length ≤ spelling.length := by
  cases spelled with
  | op ordinary =>
    cases written
    exact Nat.le_refl _
  | @direct data nonempty short =>
    simp only [serializeCommand, if_pos short] at written
    cases written
    exact Nat.le_refl _
  | @oneByte data fits =>
    simp only [serializeCommand, if_pos fits] at written
    split_ifs at written <;> cases written <;> simp only [List.length_cons] <;> omega
  | @twoBytes data fits =>
    simp only [serializeCommand] at written
    split_ifs at written <;> cases written <;>
      simp only [List.length_cons, List.length_append, Bytes.length_ofNatLE] <;> omega

/-! ## Writing a script -/

theorem serializeRaw_cons (c : Command) (s : Script) : serializeRaw (c :: s) = do
    let form ← serializeCommand c
    let tail ← serializeRaw s
    return form ++ tail := by
  unfold serializeRaw
  rw [List.mapM_cons]
  cases serializeCommand c with
  | error e => rfl
  | ok form => cases List.mapM serializeCommand s <;> rfl

theorem serializeRaw_cons_eq_ok_iff : serializeRaw (c :: s) = .ok raw ↔
    ∃ form tail, serializeCommand c = .ok form ∧ serializeRaw s = .ok tail ∧
      raw = form ++ tail := by
  rw [serializeRaw_cons, bind_eq_ok_iff]
  constructor
  · rintro ⟨form, first, written⟩
    obtain ⟨tail, others, made⟩ := bind_eq_ok_iff.mp written
    cases made
    exact ⟨form, tail, first, others, rfl⟩
  · rintro ⟨form, tail, first, others, rfl⟩
    exact ⟨form, first, bind_eq_ok_iff.mpr ⟨tail, others, rfl⟩⟩

theorem serialize_eq_ok_iff : serialize s = .ok full ↔
    ∃ raw, serializeRaw s = .ok raw ∧ full = VarInt.encode raw.length ++ raw := by
  unfold serialize
  rw [bind_eq_ok_iff]
  refine exists_congr fun raw => and_congr_right fun _ => ?_
  exact ⟨fun made => (Except.ok.inj made).symm, fun same => congrArg Except.ok same.symm⟩

theorem serializeRaw_normal (s : Script) : serializeRaw s.normal = serializeRaw s := by
  induction s with
  | nil => rfl
  | cons c s ih =>
    change serializeRaw (c.normal :: normal s) = serializeRaw (c :: s)
    rw [serializeRaw_cons, serializeRaw_cons, serializeCommand_normal, ih]

theorem serialize_normal (s : Script) : serialize s.normal = serialize s := by
  rw [serialize, serialize, serializeRaw_normal]

/-- A script is written unless one of its pushes is too long. -/
theorem exists_serializeRaw_iff : (∃ raw, serializeRaw s = .ok raw) ↔
    ∀ data, .push data ∈ s → data.length < maxPush := by
  induction s with
  | nil => exact iff_of_true ⟨[], rfl⟩ fun data member => nomatch member
  | cons c s ih =>
    simp only [serializeRaw_cons_eq_ok_iff, List.mem_cons]
    constructor
    · rintro ⟨raw, form, tail, first, others, -⟩ data (same | member)
      · exact exists_serializeCommand_iff.mp ⟨form, first⟩ data same.symm
      · exact ih.mp ⟨tail, others⟩ data member
    · intro short
      obtain ⟨form, first⟩ :=
        exists_serializeCommand_iff.mpr fun data same => short data (Or.inl same.symm)
      obtain ⟨tail, others⟩ := ih.mpr fun data member => short data (Or.inr member)
      exact ⟨form ++ tail, form, tail, first, others, rfl⟩

theorem form_of_serializeRaw (legible : ∀ c ∈ s, c.Legible) (written : serializeRaw s = .ok raw) :
    s.normal.Form raw := by
  induction s generalizing raw with
  | nil =>
    cases written
    exact .nil
  | cons c s ih =>
    obtain ⟨form, tail, first, others, rfl⟩ := serializeRaw_cons_eq_ok_iff.mp written
    obtain ⟨legible, rest⟩ := List.forall_mem_cons.mp legible
    exact .cons (form_of_serializeCommand legible first) (ih rest others)

/-- A script is written with no more bytes than it can be read from. -/
theorem length_le_of_form (spelled : s.Form data) (written : serializeRaw s = .ok raw) :
    raw.length ≤ data.length := by
  induction spelled generalizing raw with
  | nil =>
    cases written
    exact Nat.le_refl _
  | cons first _ ih =>
    obtain ⟨form, tail, one, others, rfl⟩ := serializeRaw_cons_eq_ok_iff.mp written
    have shorter := length_le_of_command first one
    have rest := ih others
    rw [List.length_append, List.length_append]
    omega

/-! ## Reading what was written -/

variable {limit : Nat}

theorem parseRaw_of_serializeRaw (legible : ∀ c ∈ s, c.Legible)
    (written : serializeRaw s = .ok raw) (fits : raw.length ≤ limit) :
    parseRaw limit raw = .ok s.normal :=
  parseRaw_eq_ok_iff.mpr ⟨fits, form_of_serializeRaw legible written⟩

theorem parse_of_serializeRaw (legible : ∀ c ∈ s, c.Legible) (written : serializeRaw s = .ok raw)
    (word : raw.length < 2 ^ 64) (fits : raw.length ≤ limit) (rest : Bytes) :
    parse limit (VarInt.encode raw.length ++ raw ++ rest) =
      .ok (s.normal, (VarInt.encode raw.length ++ raw).length) :=
  parse_eq_ok_iff.mpr ⟨raw, rest, List.append_assoc _ _ _, form_of_serializeRaw legible written,
    word, fits, rfl⟩

/-! ## Canonical scripts -/

section Canonical

variable (canonical : s.Canonical) (written : serializeRaw s = .ok raw)

include canonical written

theorem parseRaw_of_canonical (limit : Nat) : parseRaw limit raw =
    if raw.length ≤ limit then .ok s else .error (.tooLong raw.length limit) := by
  by_cases fits : raw.length ≤ limit
  · have read := parseRaw_of_serializeRaw (fun c member => (canonical c member).legible) written fits
    rw [if_pos fits, read, canonical.normal_eq]
  · rw [if_neg fits, parseRaw, if_pos (Nat.lt_of_not_le fits)]

theorem parse_of_canonical (word : raw.length < 2 ^ 64) (limit : Nat) (rest : Bytes) :
    parse limit (VarInt.encode raw.length ++ raw ++ rest) =
      if raw.length ≤ limit then .ok (s, (VarInt.encode raw.length ++ raw).length)
      else .error (.declaredTooLong raw.length limit) := by
  by_cases fits : raw.length ≤ limit
  · have read := parse_of_serializeRaw (fun c member => (canonical c member).legible) written word
      fits rest
    rw [if_pos fits, read, canonical.normal_eq]
  · rw [if_neg fits, List.append_assoc, parse_of_declared word (Nat.lt_of_not_le fits)]

theorem parseExact_of_canonical (word : raw.length < 2 ^ 64) (fits : raw.length ≤ limit) :
    parseExact limit (VarInt.encode raw.length ++ raw) = .ok s := by
  have read := parse_of_canonical canonical written word limit []
  rw [List.append_nil, if_pos fits] at read
  rw [parseExact, read, ok_bind]
  dsimp only
  rw [if_pos rfl]
  rfl

end Canonical

end Script

/-- A failed evaluation of two scripts is a failed spend. -/
def SpendError.ofEvaluation : Fault ScriptFailure → List Event × Fault SpendError
  | .error f => ([], .error (.script f))
  | .misuse m => ([], .misuse m)

theorem verifySpend_of_parseExact {settings : ScriptSettings} {first second : Bytes}
    {unlocking locking : Script}
    (read : Script.parseExact settings.maxScriptSize first = .ok unlocking)
    (read' : Script.parseExact settings.maxScriptSize second = .ok locking) (z : Nat) :
    verifySpend settings first second z =
      (Script.evaluate settings z (unlocking ++ locking)).mapError SpendError.ofEvaluation := by
  have same : SpendError.ofEvaluation = fun
      | .error f => ([], .error (.script f))
      | .misuse m => ([], .misuse m) := by
    funext fault
    cases fault <;> rfl
  unfold verifySpend
  dsimp only
  rw [read, read', same]
  rfl

namespace Script

/-- A canonical script is written, and within the limit it is read back from both forms, whatever
follows the full one; beyond the limit it is refused. A spend from the full forms of two canonical
scripts is an evaluation of one after the other. The bound `2 ^ 64` is that of the lengths that a
full form can state. -/
theorem parse_serialize :
    (∀ s : Script, s.Canonical → ∃ raw full, serializeRaw s = .ok raw ∧ serialize s = .ok full ∧
      (∀ limit, parseRaw limit raw =
        if raw.length ≤ limit then .ok s else .error (.tooLong raw.length limit)) ∧
      (raw.length < 2 ^ 64 → ∀ limit rest, parse limit (full ++ rest) =
        if raw.length ≤ limit then .ok (s, full.length)
        else .error (.declaredTooLong raw.length limit))) ∧
    ∀ (settings : ScriptSettings) (u l : Script), u.Canonical → l.Canonical →
      ∀ raw raw' full full', serializeRaw u = .ok raw → serializeRaw l = .ok raw' →
        serialize u = .ok full → serialize l = .ok full' → raw.length ≤ settings.maxScriptSize →
        raw'.length ≤ settings.maxScriptSize → settings.maxScriptSize < 2 ^ 64 →
        ∀ z, verifySpend settings full full' z =
          (evaluate settings z (u ++ l)).mapError SpendError.ofEvaluation := by
  constructor
  · intro s canonical
    obtain ⟨raw, written⟩ := exists_serializeRaw_iff.mpr
      fun data member => (canonical (.push data) member).2
    refine ⟨raw, _, written, serialize_eq_ok_iff.mpr ⟨raw, written, rfl⟩, ?_, ?_⟩
    · intro limit
      exact parseRaw_of_canonical canonical written limit
    · intro word limit rest
      exact parse_of_canonical canonical written word limit rest
  · intro settings u l unlocking locking raw raw' full full' written written' whole whole' fits fits'
      word z
    obtain ⟨_, same, rfl⟩ := serialize_eq_ok_iff.mp whole
    obtain ⟨_, same', rfl⟩ := serialize_eq_ok_iff.mp whole'
    cases written.symm.trans same
    cases written'.symm.trans same'
    have read := parseExact_of_canonical unlocking written (Nat.lt_of_le_of_lt fits word) fits
    have read' := parseExact_of_canonical locking written' (Nat.lt_of_le_of_lt fits' word) fits'
    exact verifySpend_of_parseExact read read' z

/-- A push with a two-byte length under a length prefix of three bytes, and a short script. -/
theorem parse_serialize_long :
    Canonical [.push (List.replicate 300 0x07), .op 0x75] ∧ Canonical [.op 0x51] ∧
      parse 304 ([0xfd, 0x30, 0x01, 0x4d, 0x2c, 0x01] ++ List.replicate 300 0x07 ++ [0x75] ++ [0xff]) =
        .ok ([.push (List.replicate 300 0x07), .op 0x75], 307) ∧
      verifySpend {} ([0xfd, 0x30, 0x01, 0x4d, 0x2c, 0x01] ++ List.replicate 300 0x07 ++ [0x75])
          [0x01, 0x51] 0 =
        (evaluate {} 0 ([.push (List.replicate 300 0x07), .op 0x75] ++ [.op 0x51])).mapError
          SpendError.ofEvaluation := by
  have unlocking : Canonical [.push (List.replicate 300 0x07), .op 0x75] := by decide +kernel
  have locking : Canonical [.op 0x51] := by decide
  have written : serializeRaw [.push (List.replicate 300 0x07), .op 0x75] =
      .ok ([0x4d, 0x2c, 0x01] ++ List.replicate 300 0x07 ++ [0x75]) := by decide +kernel
  have whole : serialize [.push (List.replicate 300 0x07), .op 0x75] =
      .ok ([0xfd, 0x30, 0x01, 0x4d, 0x2c, 0x01] ++ List.replicate 300 0x07 ++ [0x75]) := by
    decide +kernel
  have length : ([0x4d, 0x2c, 0x01] ++ List.replicate 300 0x07 ++ [0x75] : Bytes).length = 304 := by
    decide +kernel
  have length' : ([0xfd, 0x30, 0x01, 0x4d, 0x2c, 0x01] ++ List.replicate 300 0x07 ++ [0x75] :
      Bytes).length = 307 := by
    decide +kernel
  obtain ⟨back, spend⟩ := parse_serialize
  obtain ⟨raw, full, same, same', -, read⟩ := back _ unlocking
  cases written.symm.trans same
  cases whole.symm.trans same'
  rw [length, length'] at read
  refine ⟨unlocking, locking, ?_, ?_⟩
  · exact read (by decide) 304 [0xff]
  · exact spend {} _ _ unlocking locking _ _ _ _ written rfl whole rfl (by rw [length]; decide)
      (by decide) (by decide) 0

/-- A script that was read can be written unless one of its pushes is too long. What is written is
no longer than what was read, is read as the script with its empty pushes replaced by the opcode
`00`, and is written for that script too. -/
theorem serialize_of_parse {used : Nat} (read : parse limit data = .ok (s, used)) :
    ((∃ out, serialize s = .ok out) ↔ ∀ bytes, .push bytes ∈ s → bytes.length < maxPush) ∧
      ∀ out, serialize s = .ok out → out.length ≤ used ∧
        parse limit out = .ok (s.normal, out.length) ∧ serialize s.normal = .ok out := by
  obtain ⟨original, rest, rfl, spelled, word, fits, rfl⟩ := parse_eq_ok_iff.mp read
  constructor
  · rw [← exists_serializeRaw_iff]
    constructor
    · rintro ⟨out, whole⟩
      obtain ⟨raw, written, -⟩ := serialize_eq_ok_iff.mp whole
      exact ⟨raw, written⟩
    · rintro ⟨raw, written⟩
      exact ⟨_, serialize_eq_ok_iff.mpr ⟨raw, written, rfl⟩⟩
  · intro out whole
    obtain ⟨raw, written, rfl⟩ := serialize_eq_ok_iff.mp whole
    have shorter := length_le_of_form spelled written
    refine ⟨?_, ?_, ?_⟩
    · have narrower := VarInt.length_encode_le shorter
      rw [List.length_append, List.length_append]
      exact Nat.add_le_add narrower shorter
    · have again := parse_of_serializeRaw spelled.legible written (Nat.lt_of_le_of_lt shorter word)
        (Nat.le_trans shorter fits) []
      rwa [List.append_nil] at again
    · rw [serialize_normal, whole]

/-- An empty push in two bytes, and one byte pushed with a two-byte length. -/
theorem serialize_of_parse_padded :
    parse 6 [0x06, 0x4c, 0x00, 0x4d, 0x01, 0x00, 0xaa] = .ok ([.push [], .push [0xaa]], 7) ∧
      serialize [.push [], .push [0xaa]] = .ok [0x03, 0x00, 0x01, 0xaa] ∧
      parse 6 [0x03, 0x00, 0x01, 0xaa] = .ok ([.op 0x00, .push [0xaa]], 4) ∧
      serialize [.op 0x00, .push [0xaa]] = .ok [0x03, 0x00, 0x01, 0xaa] := by
  have read : parse 6 [0x06, 0x4c, 0x00, 0x4d, 0x01, 0x00, 0xaa] =
      .ok ([.push [], .push [0xaa]], 7) := by decide +kernel
  have written : serialize [.push [], .push [0xaa]] = .ok [0x03, 0x00, 0x01, 0xaa] := rfl
  obtain ⟨-, again, stable⟩ := (serialize_of_parse read).2 _ written
  exact ⟨read, written, again, stable⟩

end Script

end CoinScript
