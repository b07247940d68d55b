import CoinScript.Proofs.Script.Blocks
import CoinScript.Proofs.Script.Steps

/-!
# A locking script is reached whole

The commands of a locking script wait behind those of the unlocking script. If
there is no bracket among them, a conditional before them can neither cut them
off nor leave some of them out. A run that ends without a failure therefore
comes to all of them, unless a redemption replaces them, and a redemption only
replaces three commands.
-/

namespace CoinScript

namespace State

variable {settings : ScriptSettings} {z : Nat} {s t : State} {l : Script}

/-- A push in front of the template of a payment to a script hash, while such payments are
recognised. -/
def Redeems (settings : ScriptSettings) (c : Command) (pending : Script) : Prop :=
  settings.redeemScripts = true ∧ (∃ data, c = .push data) ∧
    ∃ hash, Script.scriptHash? pending = some hash

theorem not_redeems_op {code : UInt8} {pending : Script} : ¬Redeems settings (.op code) pending := by
  rintro ⟨-, ⟨data, push⟩, -⟩
  cases push

theorem not_redeems_of_none {c : Command} {pending : Script}
    (none : Script.scriptHash? pending = none) : ¬Redeems settings c pending := by
  rintro ⟨-, -, hash, template⟩
  rw [none] at template
  cases template

theorem plain_of_not_redeems {data : Bytes} {pending : Script}
    (unredeemed : ¬Redeems settings (.push data) pending) :
    settings.redeemScripts = false ∨ Script.scriptHash? pending = none := by
  cases template : Script.scriptHash? pending with
  | none => exact Or.inr rfl
  | some hash =>
    left
    rw [← Bool.not_eq_true]
    exact fun enabled => unredeemed ⟨enabled, ⟨data, rfl⟩, hash, template⟩

theorem pending_of_chooseBranch (plain : ∀ c ∈ l, c.bracket? = none) {negated : Bool}
    {rest : Script} (pending : s.pending = rest ++ l) (chosen : chooseBranch negated s = .ok t) :
    ∃ front, t.pending = front ++ l := by
  unfold chooseBranch at chosen
  split at chosen
  · cases chosen
  rename_i condition stack _
  rw [pending, Branches.ofBlock?, Branches.split?_append (Branches.split?_plain plain)] at chosen
  cases cut : Branches.split? 0 true rest with
  | none =>
    rw [cut] at chosen
    cases chosen
  | some b =>
    rw [cut] at chosen
    cases chosen
    exact ⟨b.choose (Number.truthy condition != negated), (List.append_assoc _ _ _).symm⟩

/-- A step leaves the pending commands alone, if it neither opens a block nor redeems. -/
theorem pending_of_step_plain {c : Command} (ordinary : c.bracket? ≠ some .opening)
    (unredeemed : ¬Redeems settings c s.pending)
    (stepped : (s.step settings z c).result = .ok t) : t.pending = s.pending := by
  cases c with
  | op code =>
    obtain ⟨-, ⟨i, known, applied⟩, -⟩ := result_step_op_iff.mp stepped
    refine pending_of_apply (s := { s with executed := counted code s.executed }) ?_ applied
    rintro negated rfl
    exact ordinary (Opcode.bracket_of_conditional known)
  | push data =>
    obtain ⟨rfl, -⟩ := (result_step_push_iff (plain_of_not_redeems unredeemed)).mp stepped
    rfl

/-- A step leaves plain commands pending behind whatever else it leaves, if it does not redeem. -/
theorem pending_of_step (plain : ∀ c ∈ l, c.bracket? = none) {c : Command} {rest : Script}
    (pending : s.pending = rest ++ l) (unredeemed : ¬Redeems settings c (rest ++ l))
    (stepped : (s.step settings z c).result = .ok t) : ∃ front, t.pending = front ++ l := by
  by_cases opening : c.bracket? = some .opening
  · obtain ⟨code, negated, rfl, -, known⟩ := c.exists_conditional opening
    obtain ⟨-, ⟨i, found, applied⟩, -⟩ := result_step_op_iff.mp stepped
    rw [known] at found
    cases found
    exact pending_of_chooseBranch (s := { s with executed := counted code s.executed }) plain
      pending (Traced.result_lift_eq_ok_iff.mp applied)
  · rw [← pending] at unredeemed
    exact ⟨rest, (pending_of_step_plain opening unredeemed stepped).trans pending⟩

/-- A run that comes to its end executes a last command in front of `l`, unless a redemption replaces
commands of `l`. -/
theorem exists_last_in_front (plain : ∀ c ∈ l, c.bracket? = none) (path : Reaches settings z s t)
    (done : t.pending = []) {c : Command} {rest : Script} (pending : s.pending = c :: (rest ++ l)) :
    ∃ v c rest u, Reaches settings z s v ∧ v.pending = c :: (rest ++ l) ∧
      (step settings z (v.resume (rest ++ l)) c).result = .ok u ∧ Reaches settings z u t ∧
      (u.pending = l ∨ Redeems settings c (rest ++ l)) := by
  -- From the front of the run: what stands before `l` changes with every step.
  induction path using Relation.ReflTransGen.head_induction_on generalizing c rest with
  | refl =>
    rw [done] at pending
    cases pending
  | @head s u move path ih =>
    obtain ⟨c', rest', first, stepped⟩ := move
    rw [pending] at first
    cases first
    by_cases redeemed : Redeems settings c (rest ++ l)
    · exact ⟨s, c, rest, u, .refl, pending, stepped, path, Or.inr redeemed⟩
    · obtain ⟨front, after⟩ := pending_of_step plain rfl redeemed stepped
      cases front with
      | nil => exact ⟨s, c, rest, u, .refl, pending, stepped, path, Or.inl after⟩
      | cons d front =>
        obtain ⟨v, c', rest', w, before, found⟩ := ih after
        exact ⟨v, c', rest', w, .head ⟨c, rest ++ l, pending, stepped⟩ before, found⟩

/-- Without conditionals and redemptions, the pending commands are always the last ones. -/
theorem suffix_of_reaches (path : Reaches settings z s t)
    (straight : ∀ c rest, c :: rest <:+ s.pending →
      c.bracket? ≠ some .opening ∧ ¬Redeems settings c rest) : t.pending <:+ s.pending := by
  induction path with
  | refl => exact List.suffix_rfl
  | @tail u v _ move suffix =>
    obtain ⟨c, rest, pending, stepped⟩ := move
    rw [pending] at suffix
    obtain ⟨ordinary, unredeemed⟩ := straight c rest suffix
    rw [pending_of_step_plain ordinary unredeemed stepped]
    exact (List.suffix_cons c rest).trans suffix

/-- Executed as it stands, the template of a payment to a script hash compares its hash with that of
the item on top. -/
theorem result_run_payToScriptHash_iff {hash item : Bytes} {stack alt : Stack} {n : Nat} :
    (run settings z ⟨Script.payToScriptHash hash, item :: stack, alt, n⟩).result = .ok t ↔
      n + 2 ≤ settings.maxOps ∧ stack.length + alt.length + 2 ≤ settings.maxStackSize ∧
        t = ⟨[], Number.ofBool (hash == Digest.hash160 item) :: stack, alt, n + 2⟩ := by
  constructor
  · intro ran
    obtain ⟨-, _, hashed, -, ran⟩ := (result_run_stack_iff (i := .hash .hash160) rfl).mp ran
    cases hashed
    obtain ⟨fits, ran⟩ := (result_run_push_iff rfl).mp ran
    obtain ⟨room, _, compared, -, ran⟩ := (result_run_stack_iff (i := .equal) rfl).mp ran
    cases compared
    rw [result_run_nil rfl] at ran
    simp only [List.length_cons] at fits
    exact ⟨room (by decide), by omega, (Except.ok.inj ran).symm⟩
  · rintro ⟨room, fits, rfl⟩
    have one : (item :: stack).length + alt.length ≤ settings.maxStackSize := by
      rw [List.length_cons]
      omega
    have two : (hash :: Digest.hash160 item :: stack).length + alt.length ≤
        settings.maxStackSize := by
      rw [List.length_cons, List.length_cons]
      omega
    refine (result_run_stack_iff (i := .hash .hash160) rfl).mpr
      ⟨fun _ => Nat.le_of_succ_le room, _, rfl, one, ?_⟩
    refine (result_run_push_iff rfl).mpr ⟨two, ?_⟩
    exact (result_run_stack_iff (i := .equal) rfl).mpr
      ⟨fun _ => room, _, rfl, one, result_run_nil rfl⟩

/-- More than three plain commands are reached whole. -/
theorem exists_suffix (plain : ∀ c ∈ l, c.bracket? = none) (long : 3 < l.length)
    (path : Reaches settings z s t) (done : t.pending = []) {front : Script}
    (pending : s.pending = front ++ l) :
    ∃ u, Reaches settings z s u ∧ u.pending = l ∧ Reaches settings z u t := by
  cases front with
  | nil => exact ⟨s, .refl, pending, path⟩
  | cons c rest =>
    obtain ⟨v, c', rest', u, before, found, stepped, after, last⟩ :=
      exists_last_in_front plain path done pending
    rcases last with reached | ⟨-, -, hash, template⟩
    · exact ⟨u, before.tail ⟨c', rest' ++ l, found, stepped⟩, reached, after⟩
    · have short := congrArg List.length (Script.scriptHash?_eq_some_iff.mp template).1
      rw [List.length_append] at short
      have three : (Script.payToScriptHash hash).length = 3 := rfl
      omega

end State

end CoinScript
