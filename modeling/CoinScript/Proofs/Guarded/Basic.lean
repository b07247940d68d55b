import CoinScript.Guarded.Basic
import CoinScript.Proofs.Sequencing
import CoinScript.Script.Trace

/-!
# Guarded computations that stay in their domains

A computation without crashes is sequenced as the guarded computation it
stands for. Each operation is described by its result inside its domain. What
the operations on lists do is said for a list with a given front, because that
is where indices and ranges that are counted from the length begin.
-/

namespace CoinScript

namespace Guarded

variable {ε δ α β : Type}

@[simp] theorem pure_eq_ok (a : α) : (pure a : Guarded ε α) = .ok a := rfl

@[simp] theorem ofResult_ok (a : α) : ofResult (.ok a : Except ε α) = .ok a := rfl

@[simp] theorem operate_ok (a : α) : (operate (.ok a) : Guarded ε α) = .ok a := rfl

@[simp] theorem mapFailure_ok (f : ε → δ) (a : α) :
    mapFailure f (.ok a : Guarded ε α) = .ok a := rfl

theorem mapFailure_ofResult (f : ε → δ) (x : Except ε α) :
    mapFailure f (ofResult x) = ofResult (x.mapError f) := by
  cases x <;> rfl

/-- A sequence without crashes is followed, in another representation of its results, by following
each of its parts. -/
theorem ofResult_bind {γ : Type} {f : α → β} {g : δ → γ} {next : β → Guarded ε γ} {x : Except ε α}
    {m : α → Except ε δ} (follows : ∀ a, x = .ok a → next (f a) = ofResult ((m a).map g)) :
    (ofResult (x.map f) >>= next) = ofResult ((x >>= m).map g) := by
  cases x with
  | error e => rfl
  | ok a => exact follows a rfl

/-! ## Operations inside their domains -/

@[simp] theorem difference_add (n k : Nat) : (difference (n + k) k : Guarded ε Nat) = .ok n := by
  rw [difference, if_pos (Nat.le_add_left k n), Nat.add_sub_cancel]

theorem difference_of_le {a b : Nat} (le : b ≤ a) :
    (difference a b : Guarded ε Nat) = .ok (a - b) :=
  if_pos le

theorem int64_of_natAbs_lt {n : Int} (small : n.natAbs < 0x8000000000000000) :
    (int64 n : Guarded ε Int) = .ok n :=
  if_pos ⟨by omega, by omega⟩

theorem shiftLeft_of_lt {x : BitVec 64} {distance : Nat} (short : distance < 64) :
    (shiftLeft x distance : Guarded ε (BitVec 64)) = .ok (x <<< distance) :=
  if_pos short

section Lists

variable (front part : List α)

theorem element_of_lt {xs : List α} {i : Nat} (inside : i < xs.length) :
    (element xs i : Guarded ε α) = .ok xs[i] :=
  dif_pos inside

@[simp] theorem element_append (a : α) :
    (element (front ++ a :: part) front.length : Guarded ε α) = .ok a := by
  rw [element_of_lt (by simp), List.getElem_append_right (Nat.le_refl _)]
  simp

@[simp] theorem element_append_succ (a b : α) :
    (element (front ++ a :: b :: part) (front.length + 1) : Guarded ε α) = .ok b := by
  rw [element_of_lt (by simp), List.getElem_append_right (Nat.le_add_right _ _)]
  simp

theorem slice_of_le {xs : List α} {start stop : Nat} (order : start ≤ stop)
    (inside : stop ≤ xs.length) :
    (slice xs start stop : Guarded ε (List α)) = .ok ((xs.take stop).drop start) := by
  rw [slice, range?, if_pos ⟨order, inside⟩]

@[simp] theorem slice_append {count : Nat} (short : count ≤ part.length) :
    (slice (front ++ part) front.length (front.length + count) : Guarded ε (List α)) =
      .ok (part.take count) := by
  have inside : front.length + count ≤ (front ++ part).length := by
    rw [List.length_append]
    omega
  rw [slice_of_le (Nat.le_add_right _ _) inside, List.take_length_add_append, List.drop_left]

@[simp] theorem extendFrom_append {count : Nat} (short : count ≤ part.length) :
    (extendFrom (front ++ part) front.length (front.length + count) : Guarded ε (List α)) =
      .ok (front ++ part ++ part.take count) := by
  rw [extendFrom, slice_append front part short]
  rfl

@[simp] theorem rotateFrom_append {count : Nat} (short : count ≤ part.length) :
    (rotateFrom (front ++ part) front.length count : Guarded ε (List α)) =
      .ok (front ++ (part.drop count ++ part.take count)) := by
  rw [rotateFrom, List.length_append, slice_append front part (Nat.le_refl _), List.take_length,
    ok_bind, if_pos short, List.take_left]
  rfl

@[simp] theorem removeAt_append (a : α) :
    (removeAt (front ++ a :: part) front.length : Guarded ε (α × List α)) =
      .ok (a, front ++ part) := by
  rw [removeAt, element_append, ok_bind, List.take_left, List.drop_length_add_append]
  rfl

@[simp] theorem insertAt_append (a : α) :
    (insertAt (front ++ part) front.length a : Guarded ε (List α)) = .ok (front ++ a :: part) := by
  rw [insertAt, if_pos (by simp), List.take_left, List.drop_left]

@[simp] theorem swapAt_append (a b : α) :
    (swapAt (front ++ a :: b :: part) (front.length + 1) front.length : Guarded ε (List α)) =
      .ok (front ++ b :: a :: part) := by
  rw [swapAt, element_append, element_append_succ]
  simp

theorem splitAt_of_le {xs : List α} {i : Nat} (inside : i ≤ xs.length) :
    (splitAt xs i : Guarded ε (List α × List α)) = .ok (xs.take i, xs.drop i) :=
  if_pos inside

end Lists

/-! ## Traced computations -/

/-- The guarded computation gives what the traced one gives, in another representation, fails where
it fails, and crashes only where it misuses an operator. No key is refused on the way. -/
structure Follows (f : α → β) (x : Guarded ε β) (t : Traced (Fault ε) α) : Prop where
  same : x = ofFault (t.result.map f)
  quiet : ∀ e, Event.verificationRejected e ∉ t.events

section Follows

variable {γ : Type} {f : α → β} {g : δ → γ} {x : Guarded ε β} {t : Traced (Fault ε) α}

theorem Follows.bind {next : β → Guarded ε γ} {m : α → Traced (Fault ε) δ} (first : Follows f x t)
    (others : ∀ a, t.result = .ok a → Follows g (next (f a)) (m a)) :
    Follows g (x >>= next) (t >>= m) := by
  obtain ⟨same, quiet⟩ := first
  obtain ⟨events, (e | m) | a⟩ := t
  · exact ⟨by rw [same]; rfl, quiet⟩
  · exact ⟨by rw [same]; rfl, quiet⟩
  · obtain ⟨same', quiet'⟩ := others a rfl
    refine ⟨by rw [same]; exact same', fun e member => ?_⟩
    rcases List.mem_append.mp member with before | after
    · exact quiet e before
    · exact quiet' e after

/-- What is recorded without a result comes before what follows. -/
theorem Follows.before {r : Traced (Fault ε) Unit} (recorded : Follows id (.ok ()) r)
    (others : Follows f x t) : Follows f x (r >>= fun _ => t) := by
  have sequenced : Follows f (Except.ok () >>= fun _ => x) (r >>= fun _ => t) :=
    recorded.bind fun _ _ => others
  exact sequenced

theorem follows_pure (a : α) : Follows f (.ok (f a) : Guarded ε β) (pure a) :=
  ⟨rfl, fun _ => List.not_mem_nil⟩

theorem follows_fail (e : ε) : Follows f (fail e) (Traced.fail (.error e)) :=
  ⟨rfl, fun _ => List.not_mem_nil⟩

/-- Lifting a computation without events keeps its result. -/
theorem follows_lift {y : Except ε α} (same : x = ofResult (y.map f)) : Follows f x (liftM y) := by
  refine ⟨?_, fun _ => List.not_mem_nil⟩
  rw [same]
  cases y <;> rfl

end Follows

end Guarded

end CoinScript
