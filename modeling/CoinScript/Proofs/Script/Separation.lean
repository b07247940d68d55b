import CoinScript.Proofs.Script.Blocks
import CoinScript.Proofs.Script.Steps
import Mathlib.Control.Monad.Basic

/-!
# The unlocking script is run first, and then the locking script

Both scripts are run as one. If every alternative and every closing of the
locking script lies in a block that it opens itself, no block of the unlocking
script ends there. While no script is redeemed, the run of both scripts is then
the run of the unlocking script, and behind it the run of the locking script on
the stacks and the count that the first one leaves. A failure of the unlocking
script is the failure of both.

Nothing is asked of the unlocking script. It may leave blocks open, also in
branches that are passed over, and it then fails with and without the locking
script behind it.
-/

namespace CoinScript

open Branches

namespace Script

/-- With `depth` blocks open in front of them, no alternative and no closing of the commands lies
outside of a block. -/
def encloses : (depth : Nat) → Script → Bool
  | _, [] => true
  | depth, c :: rest =>
    match c.bracket?, depth with
    | none, depth => encloses depth rest
    | some .opening, depth => encloses (depth + 1) rest
    | some .alternative, depth + 1 => encloses (depth + 1) rest
    | some .closing, depth + 1 => encloses depth rest
    | some .alternative, 0 => false
    | some .closing, 0 => false

/-- Every alternative and every closing lies in a block that the script opens itself. A script with
balanced blocks is of this kind, and so is one with blocks that have no end. -/
def SelfContained (s : Script) : Prop := s.encloses 0 = true

instance (s : Script) : Decidable s.SelfContained := inferInstanceAs (Decidable (_ = _))

/-- None of the blocks around commands of this kind ends among them. -/
theorem split?_of_encloses {depth : Nat} {l : Script} (own : l.encloses depth = true) (outer : Nat)
    (inFirst : Bool) : split? (outer + depth) inFirst l = none := by
  induction l generalizing depth with
  | nil => exact split?_nil
  | cons c rest ih =>
    rcases bracket : c.bracket? with _ | _ | _ | _
    · simp only [encloses, bracket] at own
      rw [split?_cons_plain bracket, ih own, Option.map_none]
    · simp only [encloses, bracket] at own
      rw [split?_cons_opening bracket, Nat.add_assoc, ih own, Option.map_none]
    · cases depth with
      | zero => simp [encloses, bracket] at own
      | succ depth =>
        simp only [encloses, bracket] at own
        rw [← Nat.add_assoc, split?_succ_cons_alternative bracket, Nat.add_assoc, ih own,
          Option.map_none]
    · cases depth with
      | zero => simp [encloses, bracket] at own
      | succ depth =>
        simp only [encloses, bracket] at own
        rw [← Nat.add_assoc, split?_succ_cons_closing bracket, ih own, Option.map_none]

theorem SelfContained.endless {l : Script} (own : l.SelfContained) (depth : Nat) (inFirst : Bool) :
    split? depth inFirst l = none :=
  split?_of_encloses own depth inFirst

end Script

namespace State

variable {settings : ScriptSettings} {z : Nat} {s : State} {l : Script}

/-- The state with further commands pending behind its own. -/
def followedBy (l : Script) (s : State) : State := s.resume (s.pending ++ l)

/-! ## One step -/

theorem chooseBranch_followedBy (own : l.SelfContained) (negated : Bool) (s : State) :
    chooseBranch negated (s.followedBy l) = (chooseBranch negated s).map (followedBy l) := by
  obtain ⟨pending, stack, alt, n⟩ := s
  cases stack with
  | nil => rfl
  | cons condition stack =>
    simp only [chooseBranch, followedBy, resume, ofBlock?, split?_append own.endless]
    cases split? 0 true pending with
    | none => rfl
    | some b =>
      have kept : choose { b with rest := b.rest ++ l } (Number.truthy condition != negated) =
          b.choose (Number.truthy condition != negated) ++ l :=
        (List.append_assoc _ _ _).symm
      change Except.ok _ = Except.ok _
      rw [kept]
      rfl

/-- Whether or not it fails, a step does not look at the commands behind. -/
theorem result_step_followedBy (disabled : settings.redeemScripts = false) (own : l.SelfContained)
    (c : Command) (s : State) : ((s.followedBy l).step settings z c).result =
      (s.step settings z c).result.map (followedBy l) := by
  cases c with
  | op code => exact result_step_op_map (f := (· ++ l)) (chooseBranch_followedBy own) code s
  | push data =>
    rw [result_step, result_step, result_execute_push (Or.inl disabled),
      result_execute_push (Or.inl disabled), ok_bind, ok_bind]
    change (if settings.maxStackSize < items { s with stack := data :: s.stack } then _ else _) = _
    split <;> rfl

/-! ## Runs -/

/-- The commands behind are executed when those in front of them are done, and not before. -/
theorem result_run_followedBy (disabled : settings.redeemScripts = false) (own : l.SelfContained)
    (s : State) : ((s.followedBy l).run settings z).result =
      (s.run settings z).result >>= fun t => ((t.resume l).run settings z).result := by
  induction s using induction_on_run settings z with
  | done s pending =>
    rw [result_run_nil pending, ok_bind, followedBy, pending, List.nil_append]
  | fails s c rest e pending failed =>
    have front : (s.followedBy l).pending = c :: (rest ++ l) := by
      rw [followedBy, pending]
      rfl
    have same := result_step_followedBy (z := z) disabled own c (s.resume rest)
    rw [result_run_cons pending, result_run_cons front]
    change ((s.resume rest).followedBy l |>.step settings z c).result >>= _ = _
    rw [same, resume, failed]
    rfl
  | moves s c rest t pending stepped ih =>
    have front : (s.followedBy l).pending = c :: (rest ++ l) := by
      rw [followedBy, pending]
      rfl
    have same := result_step_followedBy (z := z) disabled own c (s.resume rest)
    rw [result_run_cons pending, result_run_cons front]
    change ((s.resume rest).followedBy l |>.step settings z c).result >>= _ = _
    rw [same, resume, stepped]
    exact ih

/-- Where the unlocking script comes to its end, both scripts have the outcome of the locking script
in the state that it leaves. Where it fails, both scripts fail in the same way. -/
theorem result_run_separates (disabled : settings.redeemScripts = false) {locking : Script}
    (own : locking.SelfContained) (z : Nat) (unlocking : Script) (stack alt : Stack) (n : Nat) :
    (∀ t, (run settings z ⟨unlocking, stack, alt, n⟩).result = .ok t →
        (run settings z ⟨unlocking ++ locking, stack, alt, n⟩).result =
          (run settings z ⟨locking, t.stack, t.alt, t.executed⟩).result) ∧
      ∀ e, (run settings z ⟨unlocking, stack, alt, n⟩).result = .error e →
        (run settings z ⟨unlocking ++ locking, stack, alt, n⟩).result = .error e := by
  have both : (run settings z ⟨unlocking ++ locking, stack, alt, n⟩).result =
      (run settings z ⟨unlocking, stack, alt, n⟩).result >>= fun t =>
        ((t.resume locking).run settings z).result :=
    result_run_followedBy disabled own ⟨unlocking, stack, alt, n⟩
  constructor
  · intro t ran
    rw [both, ran, ok_bind]
    rfl
  · intro e failed
    rw [both, failed]
    rfl

section Example

/-- A locking script with a conditional. The number that the chosen branch pushes has to equal the
item below the condition. -/
def lockingConditional : Script :=
  [.op 0x63, .op 0x52, .op 0x67, .op 0x53, .op 0x68, .op 0x87]

/-- The conditional of the unlocking script takes its own branch and not one of the locking script.
A block that the unlocking script leaves open is not closed by the end of the other one's block. -/
theorem result_run_separates_conditional :
    lockingConditional.SelfContained ∧
      (run { redeemScripts := false } 0
        ⟨[.op 0x52, .op 0x00, .op 0x63, .op 0x6a, .op 0x67, .op 0x51, .op 0x68], [], [], 0⟩).result =
          .ok ⟨[], [[0x01], [0x02]], [], 1⟩ ∧
      (run { redeemScripts := false } 0
        ⟨[.op 0x52, .op 0x00, .op 0x63, .op 0x6a, .op 0x67, .op 0x51, .op 0x68] ++ lockingConditional,
          [], [], 0⟩).result =
        (run { redeemScripts := false } 0 ⟨lockingConditional, [[0x01], [0x02]], [], 1⟩).result ∧
      (run { redeemScripts := false } 0
        ⟨[.op 0x51, .op 0x00, .op 0x63] ++ lockingConditional, [], [], 0⟩).result =
        .error (.error ⟨.unbalancedConditional, "OP_IF"⟩) := by
  have own : lockingConditional.SelfContained := by decide
  have ran : (run { redeemScripts := false } 0
      ⟨[.op 0x52, .op 0x00, .op 0x63, .op 0x6a, .op 0x67, .op 0x51, .op 0x68], [], [], 0⟩).result =
        .ok ⟨[], [[0x01], [0x02]], [], 1⟩ := by
    decide +kernel
  have failed : (run { redeemScripts := false } 0
      ⟨[.op 0x51, .op 0x00, .op 0x63], [], [], 0⟩).result =
        .error (.error ⟨.unbalancedConditional, "OP_IF"⟩) := by
    decide +kernel
  exact ⟨own, ran, (result_run_separates rfl own 0 _ [] [] 0).1 _ ran,
    (result_run_separates rfl own 0 _ [] [] 0).2 _ failed⟩

end Example

end State

end CoinScript
