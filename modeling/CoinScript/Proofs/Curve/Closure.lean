import CoinScript.Curve.Secp256k1
import CoinScript.Proofs.Sequencing

/-!
# What addition preserves without the equation

A sum names the curve of its summands, and points of different curves have no
sum. If the coordinates of the summands belong to the field of that curve, so
do those of the sum, and the operators of the field are never misused. Neither
fact needs the coordinates to satisfy the equation, nor the modulus to be
prime. What sums preserve, multiples preserve, by induction on the binary
digits of the factor.
-/

namespace CoinScript

/-- A result satisfies `P`, an error about data is possible, and misuse of an operator is only
possible if `misuse` holds. -/
def Outcome {ε α : Type} (misuse : Prop) (P : α → Prop) : Except (Fault ε) α → Prop
  | .ok a => P a
  | .error (.error _) => True
  | .error (.misuse _) => misuse

theorem Outcome.bind {ε α β : Type} {misuse : Prop} {P : α → Prop} {Q : β → Prop}
    {x : Except (Fault ε) α} {f : α → Except (Fault ε) β} (first : Outcome misuse P x)
    (next : ∀ a, P a → Outcome misuse Q (f a)) : Outcome misuse Q (x >>= f) := by
  rcases x with (_ | _) | a
  · exact trivial
  · exact first
  · exact next a first

theorem outcome_true_iff {ε α : Type} {P : α → Prop} {x : Except (Fault ε) α} :
    Outcome True P x ↔ ∀ a, x = .ok a → P a := by
  rcases x with (_ | _) | a
  · exact iff_of_true trivial nofun
  · exact iff_of_true trivial nofun
  · exact ⟨fun h _ same => Except.ok.inj same ▸ h, fun h => h a rfl⟩

namespace FieldElement

variable {ε : Type} {a b : FieldElement} {m : Nat} (ha : a.modulus = m) (hb : b.modulus = m)

include ha hb

theorem combine_outcome {operator : FieldOperator} {f : FieldElement → FieldElement → FieldElement}
    (field : (f a b).modulus = a.modulus) :
    Outcome False (fun c => c.modulus = m)
      (liftM (combine operator f a b) : Except (Fault ε) FieldElement) := by
  rw [combine, if_pos (ha.trans hb.symm)]
  exact field.trans ha

theorem add_outcome :
    Outcome False (fun c => c.modulus = m) (liftM (a.add b) : Except (Fault ε) FieldElement) :=
  combine_outcome ha hb rfl

theorem sub_outcome :
    Outcome False (fun c => c.modulus = m) (liftM (a.sub b) : Except (Fault ε) FieldElement) :=
  combine_outcome ha hb rfl

theorem mul_outcome :
    Outcome False (fun c => c.modulus = m) (liftM (a.mul b) : Except (Fault ε) FieldElement) :=
  combine_outcome ha hb rfl

theorem checkedDiv_outcome :
    Outcome False (fun c => c.modulus = m)
      (liftM (a.checkedDiv b) : Except (Fault CurveError) FieldElement) := by
  rw [checkedDiv, if_pos (ha.trans hb.symm)]
  unfold inverse
  split
  · exact trivial
  · exact ha

end FieldElement

namespace Point

theorem addMultiple_eq (p q : Point) (k : Nat) : addMultiple p q k =
    if k = 0 then .ok p
    else (if k % 2 = 1 then p.add q else .ok p) >>= fun sum =>
      if k / 2 = 0 then .ok sum
      else q.add q >>= fun double => addMultiple sum double (k / 2) := by
  rw [addMultiple]
  by_cases uneven : k % 2 = 1
  · simp only [if_pos uneven]
    rfl
  · simp only [if_neg uneven]
    rfl

section Multiples

variable {misuse : Prop} {P : Point → Prop}
  (preserved : ∀ p q, P p → P q → Outcome misuse P (p.add q))

include preserved

theorem addMultiple_outcome {p q : Point} (k : Nat) (hp : P p) (hq : P q) :
    Outcome misuse P (addMultiple p q k) := by
  induction k using Nat.strongRecOn generalizing p q with
  | ind k ih =>
    rw [addMultiple_eq]
    split
    · exact hp
    rename_i positive
    have selected : Outcome misuse P (if k % 2 = 1 then p.add q else .ok p) := by
      split
      · exact preserved p q hp hq
      · exact hp
    refine selected.bind fun sum hsum => ?_
    split
    · exact hsum
    · exact (preserved q q hq hq).bind fun double hdouble => ih (k / 2) (by omega) hsum hdouble

theorem scalarMul_outcome {p : Point} (k : Nat) (start : P (infinity p.curve)) (hp : P p) :
    Outcome misuse P (p.scalarMul k) :=
  addMultiple_outcome preserved k start hp

end Multiples

/-- The coordinates, if there are any, belong to the field of the curve. -/
def InField : Point → Prop
  | infinity _ => True
  | affine x y c => x.modulus = c.modulus ∧ y.modulus = c.modulus

theorem slope_outcome {c : Curve} {x₁ y₁ x₂ y₂ : FieldElement} (first : (affine x₁ y₁ c).InField)
    (second : (affine x₂ y₂ c).InField) :
    Outcome False (fun m => m.modulus = c.modulus) (slope c x₁ y₁ x₂ y₂) := by
  obtain ⟨x₁_field, y₁_field⟩ := first
  obtain ⟨x₂_field, y₂_field⟩ := second
  have constant_field (n : Nat) : (c.a.residue n).modulus = c.modulus := rfl
  unfold slope
  split
  · refine (FieldElement.mul_outcome x₁_field x₁_field).bind fun square square_field => ?_
    refine (FieldElement.mul_outcome (constant_field 3) square_field).bind fun tripled tripled_field => ?_
    refine (FieldElement.add_outcome tripled_field rfl).bind fun rise rise_field => ?_
    refine (FieldElement.mul_outcome (constant_field 2) y₁_field).bind fun run run_field => ?_
    exact FieldElement.checkedDiv_outcome rise_field run_field
  · refine (FieldElement.sub_outcome y₂_field y₁_field).bind fun rise rise_field => ?_
    refine (FieldElement.sub_outcome x₂_field x₁_field).bind fun run run_field => ?_
    exact FieldElement.checkedDiv_outcome rise_field run_field

theorem alongLine_outcome {c : Curve} {m x₁ y₁ x₂ : FieldElement} (m_field : m.modulus = c.modulus)
    (first : (affine x₁ y₁ c).InField) (x₂_field : x₂.modulus = c.modulus) :
    Outcome False InField (alongLine c m x₁ y₁ x₂) := by
  obtain ⟨x₁_field, y₁_field⟩ := first
  unfold alongLine
  refine (FieldElement.mul_outcome m_field m_field).bind fun square square_field => ?_
  refine (FieldElement.sub_outcome square_field x₁_field).bind fun reduced reduced_field => ?_
  refine (FieldElement.sub_outcome reduced_field x₂_field).bind fun x₃ x₃_field => ?_
  refine (FieldElement.sub_outcome x₁_field x₃_field).bind fun back back_field => ?_
  refine (FieldElement.mul_outcome m_field back_field).bind fun rise rise_field => ?_
  refine (FieldElement.sub_outcome rise_field y₁_field).bind fun y₃ y₃_field => ?_
  exact ⟨x₃_field, y₃_field⟩

theorem add_inField (p q : Point) (p_field : p.InField) (q_field : q.InField) :
    Outcome False InField (p.add q) := by
  unfold add
  split
  · rename_i same
    rcases p with c | ⟨x₁, y₁, c⟩
    · exact q_field
    rcases q with d | ⟨x₂, y₂, d⟩
    · exact p_field
    cases same
    dsimp only
    split
    · exact trivial
    · exact (slope_outcome p_field q_field).bind fun m m_field =>
        alongLine_outcome m_field p_field q_field.1
  · exact trivial

theorem scalarMul_inField {p : Point} (k : Nat) (p_field : p.InField) :
    Outcome False InField (p.scalarMul k) :=
  scalarMul_outcome add_inField k trivial p_field

theorem curve_of_alongLine {c : Curve} {m x₁ y₁ x₂ : FieldElement} {s : Point}
    (sum : alongLine c m x₁ y₁ x₂ = .ok s) : s.curve = c := by
  simp only [alongLine, bind_eq_ok_iff] at sum
  obtain ⟨_, -, _, -, _, -, _, -, _, -, _, -, sum⟩ := sum
  cases sum
  rfl

/-- A sum exists on one curve only, the curve of both summands. -/
theorem curve_of_add {p q s : Point} (sum : p.add q = .ok s) :
    s.curve = p.curve ∧ p.curve = q.curve := by
  unfold add at sum
  split at sum
  · rename_i same
    refine ⟨?_, same⟩
    rcases p with c | ⟨x₁, y₁, c⟩
    · cases sum
      exact same.symm
    rcases q with d | ⟨x₂, y₂, d⟩
    · cases sum
      rfl
    dsimp only at sum
    split at sum
    · cases sum
      rfl
    · obtain ⟨m, -, sum⟩ := bind_eq_ok_iff.mp sum
      exact curve_of_alongLine sum
  · cases sum

theorem curve_of_scalarMul {p s : Point} {k : Nat} (multiple : p.scalarMul k = .ok s) :
    s.curve = p.curve := by
  have preserved (q r : Point) (hq : q.curve = p.curve) (_ : r.curve = p.curve) :
      Outcome True (fun s => s.curve = p.curve) (q.add r) :=
    outcome_true_iff.mpr fun s sum => (curve_of_add sum).1.trans hq
  exact outcome_true_iff.mp (scalarMul_outcome preserved k rfl rfl) s multiple

end Point

end CoinScript
