import CoinScript.Proofs.Ecdsa.ForeignKeys
import CoinScript.Proofs.Encoding.Sec
import CoinScript.Proofs.Script.Steps

/-!
# No operator is misused in an evaluation

Only signature checks use the arithmetic of the curve. The keys they use were
read from the stack, and what is read as a key is a point of secp256k1, so
every check gets a verdict. An evaluation therefore ends with a verdict or
with a failure that names a command.
-/

namespace CoinScript

/-- A key that was read has its coordinates in the field of its curve. -/
theorem Sec.inField_of_decode {data : Bytes} {P : Point} (decoded : decode data = .ok P) :
    P.InField := by
  obtain ⟨on, -⟩ := encode_of_decode decoded
  cases P with
  | infinity c => trivial
  | affine x y c =>
    obtain ⟨rfl, checked⟩ := on
    simp only [Curve.contains, Bool.and_eq_true, beq_iff_eq] at checked
    exact checked.1

namespace Traced

/-- Events are appended in the order of the computations, however these are grouped. -/
instance {ε : Type} : LawfulMonad (Traced ε) := by
  refine LawfulMonad.mk' (Traced ε) ?_ ?_ ?_
  · rintro α ⟨events, e | a⟩
    · rfl
    · exact congrArg (Traced.mk · (.ok a)) (List.append_nil events)
  · intro α β a f
    rfl
  · rintro α β γ ⟨events, e | a⟩ f g
    · rfl
    · change Traced.bind ⟨events ++ (f a).events, (f a).result⟩ g =
        ⟨events ++ (Traced.bind (f a) g).events, (Traced.bind (f a) g).result⟩
      unfold Traced.bind
      cases (f a).result with
      | error e => rfl
      | ok b => exact congrArg (Traced.mk · (g b).result) (List.append_assoc _ _ _)

variable {ε δ α β : Type} {P : α → Prop} {Q : β → Prop} {t : Traced (Fault ε) α}

/-- A result satisfies `P`, and whatever stops the computation is not the misuse of an operator. -/
def Orderly (P : α → Prop) (t : Traced (Fault ε) α) : Prop := Outcome False P t.result

theorem Orderly.bind {f : α → Traced (Fault ε) β} (first : t.Orderly P)
    (next : ∀ a, P a → (f a).Orderly Q) : (t >>= f).Orderly Q := by
  rw [Orderly, result_bind]
  exact Outcome.bind first next

theorem orderly_lift (x : Except ε α) : (liftM x : Traced (Fault ε) α).Orderly fun _ => True := by
  cases x <;> trivial

theorem Orderly.mapError {f : Fault ε → List Event × Fault δ} (orderly : t.Orderly P)
    (kept : ∀ e, ∃ e', (f (.error e)).2 = .error e') : (t.mapError f).Orderly P := by
  obtain ⟨events, (e | m) | a⟩ := t
  · obtain ⟨e', same⟩ := kept e
    change Outcome False P (.error (f (.error e)).2)
    rw [same]
    trivial
  · exact orderly.elim
  · exact orderly

theorem Orderly.mapM {xs : List β} {f : β → Traced (Fault ε) α} (each : ∀ x, (f x).Orderly P) :
    (xs.mapM f).Orderly fun ys => ∀ y ∈ ys, P y := by
  induction xs with
  | nil => exact fun y member => nomatch member
  | cons x xs ih =>
    rw [List.mapM_cons]
    refine (each x).bind fun y holds => ih.bind fun ys all => ?_
    exact List.forall_mem_cons.mpr ⟨holds, all⟩

end Traced

open Traced

/-! ## Signature checks -/

namespace SignatureCheck

variable {z : Nat} {p : Point} {keys : List Point}

theorem orderly_readKey (item : Bytes) : (readKey item).Orderly Point.InField := by
  unfold readKey
  split
  · rename_i p decoded
    exact Sec.inField_of_decode decoded
  · trivial

theorem orderly_readSignature (item : Bytes) : (readSignature item).Orderly fun _ => True := by
  unfold readSignature
  split
  · trivial
  · split <;> trivial

theorem orderly_accepts (field : p.InField) (sig : Signature) :
    (accepts z p sig).Orderly fun _ => True := by
  obtain ⟨verdict, given⟩ := p.verify_inField field sig z
  rw [accepts, given]
  trivial

theorem orderly_single (s : Stack) : (single z s).Orderly fun _ => True := by
  unfold single
  split
  · refine (orderly_readKey _).bind fun p field => ?_
    refine (orderly_readSignature _).bind fun sig _ => ?_
    exact (orderly_accepts field sig).bind fun _ _ => trivial
  · trivial

theorem orderly_keysAfter? (sig : Signature) (fields : ∀ p ∈ keys, p.InField) :
    (keysAfter? z sig keys).Orderly fun left => ∀ others ∈ left, ∀ p ∈ others, p.InField := by
  induction keys with
  | nil => exact fun others found => nomatch found
  | cons p keys ih =>
    obtain ⟨field, fields⟩ := List.forall_mem_cons.mp fields
    refine (orderly_accepts field sig).bind fun accepted _ => ?_
    cases accepted with
    | true =>
      intro others found
      cases found
      exact fields
    | false => exact ih fields

theorem orderly_matchInOrder (sigs : List Signature) (fields : ∀ p ∈ keys, p.InField) :
    (matchInOrder z sigs keys).Orderly fun _ => True := by
  induction sigs generalizing keys with
  | nil => trivial
  | cons sig sigs ih =>
    refine (orderly_keysAfter? sig fields).bind fun left passed => ?_
    cases left with
    | none => trivial
    | some others => exact ih (passed others rfl)

theorem orderly_multiple (s : Stack) : (multiple z s).Orderly fun _ => True := by
  unfold multiple
  refine (orderly_lift _).bind fun ⟨keys, s⟩ _ => ?_
  refine (orderly_lift _).bind fun ⟨sigs, s⟩ _ => ?_
  cases s with
  | nil => trivial
  | cons _ rest =>
    refine (Orderly.mapM orderly_readKey).bind fun keys fields => ?_
    refine (Orderly.mapM orderly_readSignature).bind fun sigs _ => ?_
    exact (orderly_matchInOrder sigs fields).bind fun _ _ => trivial

end SignatureCheck

theorem SignatureInstruction.orderly_run (z : Nat) (s : Stack) (i : SignatureInstruction) :
    (i.run z s).Orderly fun _ => True := by
  cases i with
  | single demand =>
    refine (SignatureCheck.orderly_single s).bind fun s _ => ?_
    cases demand with
    | true => exact orderly_lift _
    | false => trivial
  | multiple demand =>
    refine (SignatureCheck.orderly_multiple s).bind fun s _ => ?_
    cases demand with
    | true => exact orderly_lift _
    | false => trivial

theorem Instruction.orderly_apply (z : Nat) (s : State) (i : Instruction) :
    (i.apply z s).Orderly fun _ => True := by
  cases i with
  | stack i => exact (orderly_lift _).bind fun _ _ => trivial
  | conditional negated => exact orderly_lift _
  | altStack i => exact (orderly_lift _).bind fun _ _ => trivial
  | signature i => exact (i.orderly_run z s.stack).bind fun _ _ => trivial

/-! ## Steps and runs -/

namespace State

variable {settings : ScriptSettings} {z : Nat} {s : State}

theorem orderly_count (code : UInt8) (s : State) :
    (s.count settings code).Orderly fun _ => True := by
  unfold count
  split
  · split <;> trivial
  · trivial

theorem orderly_note (e : Event) : (note settings e).Orderly fun _ => True := by
  unfold note
  split <;> trivial

theorem orderly_executeOp (code : UInt8) (s : State) :
    (s.executeOp settings z code).Orderly fun _ => True := by
  refine (orderly_count code s).bind fun s _ => ?_
  refine (orderly_note _).bind fun _ _ => ?_
  refine Orderly.mapError ?_ fun code => ⟨_, rfl⟩
  split
  · rename_i i known
    exact i.orderly_apply z s
  · trivial

theorem orderly_redeem (s : State) : (s.redeem settings).Orderly fun _ => True := by
  unfold redeem
  split
  · trivial
  split
  · trivial
  split
  · split <;> trivial
  · trivial

theorem orderly_executePush (data : Bytes) (s : State) :
    (s.executePush settings data).Orderly fun _ => True := by
  refine (orderly_note _).bind fun _ _ => ?_
  dsimp only
  split
  · exact orderly_redeem _
  · trivial

theorem orderly_step (c : Command) (s : State) : (s.step settings z c).Orderly fun _ => True := by
  have executed : (s.execute settings z c).Orderly fun _ => True := by
    cases c with
    | op code => exact orderly_executeOp code s
    | push data => exact orderly_executePush data s
  refine executed.bind fun t _ => ?_
  split <;> trivial

theorem orderly_run (s : State) : (s.run settings z).Orderly fun _ => True := by
  induction s using induction_on_run settings z with
  | done s pending =>
    rw [Orderly, result_run_nil pending]
    trivial
  | fails s c rest e pending failed =>
    have first : Outcome False (fun _ => True) (step settings z { s with pending := rest } c).result :=
      orderly_step c { s with pending := rest }
    rw [failed] at first
    rw [Orderly, result_run_cons pending, failed]
    exact first
  | moves s c rest t pending stepped ih =>
    rw [Orderly, result_run_cons pending, stepped]
    exact ih

end State

namespace Script

theorem orderly_evaluate (settings : ScriptSettings) (z : Nat) (s : Script) :
    (evaluate settings z s).Orderly fun _ => True :=
  (State.orderly_run (State.ofScript s)).bind fun _ _ => trivial

/-- An evaluation gives a verdict or fails at a command. -/
theorem result_evaluate_cases (settings : ScriptSettings) (z : Nat) (s : Script) :
    (∃ b, (evaluate settings z s).result = .ok b) ∨
      ∃ e, (evaluate settings z s).result = .error (.error e) := by
  have orderly : Outcome False (fun _ => True) (evaluate settings z s).result :=
    orderly_evaluate settings z s
  cases ended : (evaluate settings z s).result with
  | ok b => exact Or.inl ⟨b, rfl⟩
  | error fault =>
    rw [ended] at orderly
    cases fault with
    | error e => exact Or.inr ⟨e, rfl⟩
    | misuse m => exact orderly.elim

end Script

end CoinScript
