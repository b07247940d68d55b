import CoinScript.Proofs.Script.Grammar
import Mathlib.Data.List.Forall2

/-!
# Scripts cut into commands

The bytes of a script are cut into pieces, one for each of its commands, and a
piece tells by itself where it ends. So there is one way at most to cut a byte
string, one script at most to read from it, and what follows a script is read
as if it stood alone.
-/

namespace CoinScript

variable {a b data raw raw' form form' : Bytes} {c d : Command} {s t u : Script}

/-- A form of a command is not the beginning of another form, of the same command or of another one. -/
theorem Command.Form.append_inj (first : c.Form form) (second : d.Form form')
    (same : form ++ raw = form' ++ raw') : c = d ∧ form = form' ∧ raw = raw' := by
  obtain ⟨byte, tail, stop, rfl, read⟩ := Reading.command?_of_form first 0 raw
  obtain ⟨byte', tail', stop', rfl, read'⟩ := Reading.command?_of_form second 0 raw'
  obtain ⟨rfl, rest⟩ : byte = byte' ∧ tail ++ raw = tail' ++ raw' := List.cons.inj same
  -- both forms are read from the same bytes, so what is read of them is the same
  rw [rest, read'] at read
  cases read
  exact ⟨rfl, congrArg (byte :: ·) (List.append_cancel_right rest), rfl⟩

theorem Command.Form.ne_nil (spelled : c.Form form) : form ≠ [] := by
  cases spelled <;> exact List.cons_ne_nil _ _

namespace Script

/-- The bytes are the pieces, one after another, and each piece is a form of its command. -/
def IsCut (s : Script) (pieces : List Bytes) (data : Bytes) : Prop :=
  List.Forall₂ Command.Form s pieces ∧ data = pieces.flatten

theorem form_iff_exists_isCut : s.Form data ↔ ∃ pieces, s.IsCut pieces data := by
  constructor
  · intro spelled
    induction spelled with
    | nil => exact ⟨[], .nil, rfl⟩
    | @cons c s form raw first _ ih =>
      obtain ⟨pieces, forms, rfl⟩ := ih
      exact ⟨form :: pieces, .cons first forms, rfl⟩
  · rintro ⟨pieces, forms, rfl⟩
    induction forms with
    | nil => exact .nil
    | cons first _ ih => exact .cons first ih

theorem isCut_unique {pieces others : List Bytes} (first : s.IsCut pieces data)
    (second : t.IsCut others data) : s = t ∧ pieces = others := by
  obtain ⟨forms, rfl⟩ := first
  obtain ⟨forms', same⟩ := second
  induction forms generalizing t others with
  | nil =>
    cases forms' with
    | nil => exact ⟨rfl, rfl⟩
    | cons one _ => exact absurd (List.append_eq_nil_iff.mp same.symm).1 one.ne_nil
  | cons one _ ih =>
    cases forms' with
    | nil => exact absurd (List.append_eq_nil_iff.mp same).1 one.ne_nil
    | cons one' others' =>
      obtain ⟨rfl, rfl, rest⟩ := one.append_inj one' same
      obtain ⟨rfl, rfl⟩ := ih others' rest
      exact ⟨rfl, rfl⟩

/-- What follows the bytes of a script has to be the bytes of the commands that follow. -/
theorem form_append_iff (first : s.Form a) : u.Form (a ++ b) ↔ ∃ t, t.Form b ∧ u = s ++ t := by
  induction first generalizing u with
  | nil =>
    refine ⟨fun spelled => ⟨u, spelled, rfl⟩, ?_⟩
    rintro ⟨t, spelled, rfl⟩
    exact spelled
  | @cons c s form raw one _ ih =>
    rw [List.append_assoc]
    constructor
    · intro spelled
      cases u with
      | nil => exact absurd (List.append_eq_nil_iff.mp (form_nil_iff.mp spelled)).1 one.ne_nil
      | cons d u =>
        obtain ⟨form', raw', one', others, same⟩ := form_cons_iff.mp spelled
        obtain ⟨rfl, rfl, rfl⟩ := one.append_inj one' same
        obtain ⟨t, rest, rfl⟩ := ih.mp others
        exact ⟨t, rest, rfl⟩
    · rintro ⟨t, rest, rfl⟩
      exact .cons one (ih.mpr ⟨t, rest, rfl⟩)

/-- Reading a script within a limit accepts exactly the byte strings that can be cut into forms of its
commands. A byte string can be cut in one way only. After a script that is read, more bytes are read
exactly when they are read alone, and they add the commands that they give alone. -/
theorem parseRaw_cuts :
    (∀ (limit : Nat) (data : Bytes) (s : Script),
      parseRaw limit data = .ok s ↔ data.length ≤ limit ∧ ∃ pieces, s.IsCut pieces data) ∧
    (∀ (data : Bytes) (s t : Script) (pieces others : List Bytes),
      s.IsCut pieces data → t.IsCut others data → s = t ∧ pieces = others) ∧
    ∀ (limit limit' limit'' : Nat) (a b : Bytes) (s u : Script),
      parseRaw limit a = .ok s → b.length ≤ limit' → (a ++ b).length ≤ limit'' →
        (parseRaw limit'' (a ++ b) = .ok u ↔ ∃ t, parseRaw limit' b = .ok t ∧ u = s ++ t) := by
  refine ⟨fun limit data s => ?_, fun data s t pieces others => isCut_unique, ?_⟩
  · rw [parseRaw_eq_ok_iff, form_iff_exists_isCut]
  · intro limit limit' limit'' a b s u read short long
    obtain ⟨-, spelled⟩ := parseRaw_eq_ok_iff.mp read
    simp only [parseRaw_eq_ok_iff, and_iff_right short, and_iff_right long]
    exact form_append_iff spelled

/-- Four bytes are cut into an empty push in its longer form and the push of two bytes that look like
lengths; with an opcode behind them, that opcode is added. -/
theorem parseRaw_cuts_nested :
    parseRaw 5 [0x4c, 0x00, 0x02, 0x4d, 0x01] = .ok [.push [], .push [0x4d, 0x01]] ∧
      (∀ (t : Script) (others : List Bytes), t.IsCut others [0x4c, 0x00, 0x02, 0x4d, 0x01] →
        t = [.push [], .push [0x4d, 0x01]] ∧ others = [[0x4c, 0x00], [0x02, 0x4d, 0x01]]) ∧
      parseRaw 6 [0x4c, 0x00, 0x02, 0x4d, 0x01, 0x61] =
        .ok [.push [], .push [0x4d, 0x01], .op 0x61] := by
  obtain ⟨reads, unique, continues⟩ := parseRaw_cuts
  have cut : IsCut [.push [], .push [0x4d, 0x01]] [[0x4c, 0x00], [0x02, 0x4d, 0x01]]
      [0x4c, 0x00, 0x02, 0x4d, 0x01] :=
    ⟨.cons (.oneByte (by decide)) (.cons (.direct (by decide) (by decide)) .nil), rfl⟩
  have read : parseRaw 5 [0x4c, 0x00, 0x02, 0x4d, 0x01] = .ok [.push [], .push [0x4d, 0x01]] :=
    (reads 5 _ _).mpr ⟨by decide, _, cut⟩
  have alone : parseRaw 1 [0x61] = .ok [.op 0x61] :=
    (reads 1 _ _).mpr ⟨by decide, [[0x61]], .cons (.op (by decide)) .nil, rfl⟩
  refine ⟨read, fun t others other => unique _ _ _ _ _ other cut, ?_⟩
  exact (continues 5 1 6 _ [0x61] _ _ read (by decide) (by decide)).mpr ⟨_, alone, rfl⟩

end Script

end CoinScript
