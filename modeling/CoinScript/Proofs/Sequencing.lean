import CoinScript.Curve.Basic

/-!
# Sequencing of results

A result is passed on, an error ends the sequence, and both survive a change
to a wider type of errors.
-/

namespace CoinScript

variable {ε α β : Type}

@[simp] theorem ok_bind (x : α) (f : α → Except ε β) : (Except.ok x >>= f) = f x := rfl

theorem bind_eq_ok_iff {x : Except ε α} {f : α → Except ε β} {b : β} :
    (x >>= f) = .ok b ↔ ∃ a, x = .ok a ∧ f a = .ok b := by
  cases x with
  | error e => exact ⟨fun h => (nomatch h), fun ⟨_, h, _⟩ => (nomatch h)⟩
  | ok a => exact ⟨fun h => ⟨a, rfl, h⟩, fun ⟨_, h, g⟩ => by cases h; exact g⟩

theorem toOption_eq_some_iff {x : Except ε α} {a : α} : x.toOption = some a ↔ x = .ok a := by
  cases x with
  | error e => exact iff_of_false nofun nofun
  | ok b => exact ⟨fun h => by cases h; rfl, fun h => by cases h; rfl⟩

@[simp] theorem lift_ok (x : α) :
    (liftM (Except.ok x : Except Misuse α) : Except (Fault ε) α) = .ok x := rfl

@[simp] theorem lift_ok_field (x : α) :
    (liftM (Except.ok x : Except FieldError α) : Except (Fault CurveError) α) = .ok x := rfl

theorem mapError_eq_ok_iff {δ : Type} {x : Except ε α} {f : ε → δ} {a : α} :
    x.mapError f = .ok a ↔ x = .ok a := by
  cases x with
  | error e => exact ⟨fun h => (nomatch h), fun h => (nomatch h)⟩
  | ok b => exact ⟨fun h => by cases h; rfl, fun h => by cases h; rfl⟩

theorem map_eq_ok_iff {x : Except ε α} {f : α → β} {b : β} :
    x.map f = .ok b ↔ ∃ a, x = .ok a ∧ f a = b := by
  cases x with
  | error e => exact ⟨fun h => (nomatch h), fun ⟨_, h, _⟩ => (nomatch h)⟩
  | ok a => exact ⟨fun h => ⟨a, rfl, Except.ok.inj h⟩, fun ⟨_, h, g⟩ => by cases h; rw [← g]; rfl⟩

theorem lift_eq_ok_iff {x : Except FieldError α} {a : α} :
    (liftM x : Except CurveError α) = .ok a ↔ x = .ok a :=
  mapError_eq_ok_iff

end CoinScript
