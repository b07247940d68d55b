import CoinScript.Proofs.Script.Limits

/-!
# What lies below

A script works on the tops of its two stacks. Whatever lies below the items
that it was given is neither read nor moved: an instruction finds its operands
by their distance from the top, also where the distance is itself an operand,
and it fails when the distance leads out of the stack. Only one opcode sees how
deep the stack is, the one that pushes the number of items. A script without
it runs in the same way on top of any other items, with room for them in the
size of the stacks.
-/

namespace CoinScript

/-- The opcode that pushes the number of items on the main stack. -/
def Opcode.opDepth : UInt8 := 0x74

theorem Opcode.eq_opDepth_of_depth {code : UInt8}
    (known : instructionOf? code = some (.stack .depth)) : code = opDepth := by
  have listed : ∀ entry ∈ table, entry.instruction = some (.stack .depth) →
      entry.code = opDepth := by
    decide
  obtain ⟨entry, member, rfl, depth⟩ := exists_entry known
  exact listed entry member depth

/-! ## Instructions -/

namespace Stack

variable {s t : Stack}

theorem popNumber_append {n : Int} (below : Stack) (popped : s.popNumber = .ok (n, t)) :
    popNumber (s ++ below) = .ok (n, t ++ below) := by
  cases s with
  | nil => cases popped
  | cons item rest =>
    obtain ⟨m, read, same⟩ := bind_eq_ok_iff.mp popped
    cases same
    exact bind_eq_ok_iff.mpr ⟨n, read, rfl⟩

theorem popDepth_append {depth : Nat} (below : Stack) (popped : s.popDepth = .ok (depth, t)) :
    popDepth (s ++ below) = .ok (depth, t ++ below) := by
  obtain ⟨⟨n, rest⟩, number, checked⟩ := bind_eq_ok_iff.mp popped
  refine bind_eq_ok_iff.mpr ⟨(n, rest ++ below), popNumber_append below number, ?_⟩
  dsimp only at checked ⊢
  split at checked
  · cases checked
  · rename_i inside
    cases checked
    have longer : ¬(n < 0 ∨ ((t ++ below).length : Int) ≤ n) := by
      rw [List.length_append]
      omega
    rw [if_neg longer]
    rfl

theorem getD_append_of_popDepth {depth : Nat} (below : Stack)
    (popped : s.popDepth = .ok (depth, t)) : (t ++ below).getD depth [] = t.getD depth [] := by
  obtain ⟨inside, -⟩ := sublist_of_popDepth popped
  exact List.getD_append _ _ _ _ inside

theorem pick_append (below : Stack) (ran : s.pick = .ok t) :
    pick (s ++ below) = .ok (t ++ below) := by
  obtain ⟨⟨depth, rest⟩, popped, same⟩ := bind_eq_ok_iff.mp ran
  cases same
  refine bind_eq_ok_iff.mpr ⟨(depth, rest ++ below), popDepth_append below popped, ?_⟩
  dsimp only
  rw [getD_append_of_popDepth below popped]
  rfl

theorem roll_append (below : Stack) (ran : s.roll = .ok t) :
    roll (s ++ below) = .ok (t ++ below) := by
  obtain ⟨⟨depth, rest⟩, popped, same⟩ := bind_eq_ok_iff.mp ran
  cases same
  obtain ⟨inside, -⟩ := sublist_of_popDepth popped
  refine bind_eq_ok_iff.mpr ⟨(depth, rest ++ below), popDepth_append below popped, ?_⟩
  dsimp only
  rw [getD_append_of_popDepth below popped, List.eraseIdx_append_of_lt_length inside]
  rfl

theorem verify_append (below : Stack) (ran : s.verify = .ok t) :
    verify (s ++ below) = .ok (t ++ below) := by
  cases s with
  | nil => cases ran
  | cons item rest =>
    simp only [verify, List.cons_append] at ran ⊢
    split at ran
    · rename_i holds
      cases ran
      rw [if_pos holds]
    · cases ran

theorem equal_append (below : Stack) (ran : s.equal = .ok t) :
    equal (s ++ below) = .ok (t ++ below) := by
  rcases s with _ | ⟨a, _ | ⟨b, s⟩⟩ <;> cases ran
  rfl

theorem unary_append {f : Int → Int} (below : Stack) (ran : s.unary f = .ok t) :
    unary f (s ++ below) = .ok (t ++ below) := by
  cases s with
  | nil => cases ran
  | cons a s =>
    obtain ⟨x, read, same⟩ := bind_eq_ok_iff.mp ran
    cases same
    exact bind_eq_ok_iff.mpr ⟨x, read, rfl⟩

theorem binary_append {f : Int → Int → Int} (below : Stack) (ran : s.binary f = .ok t) :
    binary f (s ++ below) = .ok (t ++ below) := by
  rcases s with _ | ⟨b, _ | ⟨a, s⟩⟩
  · cases ran
  · cases ran
  · obtain ⟨y, upper, ran⟩ := bind_eq_ok_iff.mp ran
    obtain ⟨x, lower, same⟩ := bind_eq_ok_iff.mp ran
    cases same
    exact bind_eq_ok_iff.mpr ⟨y, upper, bind_eq_ok_iff.mpr ⟨x, lower, rfl⟩⟩

theorem within_append (below : Stack) (ran : s.within = .ok t) :
    Stack.within (s ++ below) = .ok (t ++ below) := by
  rcases s with _ | ⟨c, _ | ⟨b, _ | ⟨a, s⟩⟩⟩
  · cases ran
  · cases ran
  · cases ran
  · obtain ⟨upper, first, ran⟩ := bind_eq_ok_iff.mp ran
    obtain ⟨lower, second, ran⟩ := bind_eq_ok_iff.mp ran
    obtain ⟨x, third, same⟩ := bind_eq_ok_iff.mp ran
    cases same
    exact bind_eq_ok_iff.mpr ⟨upper, first, bind_eq_ok_iff.mpr ⟨lower, second,
      bind_eq_ok_iff.mpr ⟨x, third, rfl⟩⟩⟩

end Stack

open Stack

/-- An instruction on the main stack does the same on top of other items. -/
theorem StackInstruction.run_append {i : StackInstruction} {s t : Stack} (below : Stack)
    (blind : i ≠ .depth) (ran : i.run s = .ok t) : i.run (s ++ below) = .ok (t ++ below) := by
  cases i
  case depth => exact absurd rfl blind
  case number n | skip =>
    cases ran
    rfl
  case stray | abort => cases ran
  case verify => exact verify_append below ran
  case pick => exact pick_append below ran
  case roll => exact roll_append below ran
  case equal => exact equal_append below ran
  case equalVerify =>
    obtain ⟨u, compared, verified⟩ := bind_eq_ok_iff.mp ran
    exact bind_eq_ok_iff.mpr ⟨u ++ below, equal_append below compared, verify_append below verified⟩
  case unary operation => exact unary_append below ran
  case binary operation => exact binary_append below ran
  case numEqualVerify =>
    obtain ⟨u, compared, verified⟩ := bind_eq_ok_iff.mp ran
    exact bind_eq_ok_iff.mpr ⟨u ++ below, binary_append below compared, verify_append below verified⟩
  case within => exact within_append below ran
  case ifDup =>
    cases s with
    | nil => cases ran
    | cons a s =>
      cases ran
      simp only [List.cons_append, run]
      split <;> rfl
  -- All others have their operands at fixed distances from the top.
  case drop | dup | size | hash =>
    cases s <;> cases ran
    rfl
  case drop2 | dup2 | nip | over1 | swap | tuck =>
    rcases s with _ | ⟨a, _ | ⟨b, s⟩⟩ <;> cases ran
    rfl
  case dup3 | rot =>
    rcases s with _ | ⟨a, _ | ⟨b, _ | ⟨c, s⟩⟩⟩ <;> cases ran
    rfl
  case over2 | swap2 =>
    rcases s with _ | ⟨a, _ | ⟨b, _ | ⟨c, _ | ⟨d, s⟩⟩⟩⟩ <;> cases ran
    rfl
  case rot2 =>
    rcases s with _ | ⟨a, _ | ⟨b, _ | ⟨c, _ | ⟨d, _ | ⟨e, _ | ⟨f, s⟩⟩⟩⟩⟩⟩ <;> cases ran
    rfl

theorem AltStackInstruction.run_append {i : AltStackInstruction} {s alt t alt' : Stack}
    (below beneath : Stack) (ran : i.run s alt = .ok (t, alt')) :
    i.run (s ++ below) (alt ++ beneath) = .ok (t ++ below, alt' ++ beneath) := by
  cases i with
  | put =>
    cases s <;> cases ran
    rfl
  | take =>
    cases alt <;> cases ran
    rfl

namespace SignatureCheck

variable {z : Nat} {s t : Stack}

theorem takeCounted_append {limit : Nat} {items : List Bytes} (below : Stack)
    (taken : takeCounted limit s = .ok (items, t)) :
    takeCounted limit (s ++ below) = .ok (items, t ++ below) := by
  obtain ⟨count, read, few, rfl⟩ := takeCounted_eq_ok_iff.mp taken
  refine takeCounted_eq_ok_iff.mpr ⟨count, read, few, ?_⟩
  rw [List.cons_append, List.append_assoc]

theorem single_append (below : Stack) (ran : (single z s).result = .ok t) :
    (single z (s ++ below)).result = .ok (t ++ below) := by
  rcases s with _ | ⟨key, _ | ⟨sig, s⟩⟩
  · cases ran
  · cases ran
  · obtain ⟨p, read, ran⟩ := Traced.result_bind_eq_ok_iff.mp ran
    obtain ⟨signature, decoded, ran⟩ := Traced.result_bind_eq_ok_iff.mp ran
    obtain ⟨accepted, verdict, same⟩ := Traced.result_bind_eq_ok_iff.mp ran
    cases same
    exact Traced.result_bind_eq_ok_iff.mpr ⟨p, read, Traced.result_bind_eq_ok_iff.mpr
      ⟨signature, decoded, Traced.result_bind_eq_ok_iff.mpr ⟨accepted, verdict, rfl⟩⟩⟩

theorem multiple_append (below : Stack) (ran : (multiple z s).result = .ok t) :
    (multiple z (s ++ below)).result = .ok (t ++ below) := by
  obtain ⟨⟨keys, u⟩, first, ran⟩ := Traced.result_bind_eq_ok_iff.mp ran
  obtain ⟨⟨sigs, v⟩, second, ran⟩ := Traced.result_bind_eq_ok_iff.mp ran
  have upper := takeCounted_append below (Traced.result_lift_eq_ok_iff.mp first)
  have lower := takeCounted_append below (Traced.result_lift_eq_ok_iff.mp second)
  refine Traced.result_bind_eq_ok_iff.mpr ⟨_, Traced.result_lift_eq_ok_iff.mpr upper, ?_⟩
  refine Traced.result_bind_eq_ok_iff.mpr ⟨_, Traced.result_lift_eq_ok_iff.mpr lower, ?_⟩
  cases v with
  | nil => cases ran
  | cons unused rest =>
    obtain ⟨points, read, ran⟩ := Traced.result_bind_eq_ok_iff.mp ran
    obtain ⟨signatures, decoded, ran⟩ := Traced.result_bind_eq_ok_iff.mp ran
    obtain ⟨matched, verdict, same⟩ := Traced.result_bind_eq_ok_iff.mp ran
    cases same
    exact Traced.result_bind_eq_ok_iff.mpr ⟨points, read, Traced.result_bind_eq_ok_iff.mpr
      ⟨signatures, decoded, Traced.result_bind_eq_ok_iff.mpr ⟨matched, verdict, rfl⟩⟩⟩

/-- A truth value that is demanded is taken from the top, the items below it stay. -/
theorem result_demand_append {check check' : Check Stack} (below : Stack) (demand : Bool)
    (framed : ∀ u, check.result = .ok u → check'.result = .ok (u ++ below))
    (ran : (check >>= fun u => if demand then liftM u.verify else pure u).result = .ok t) :
    (check' >>= fun u => if demand then liftM u.verify else pure u).result = .ok (t ++ below) := by
  obtain ⟨u, checked, ran⟩ := Traced.result_bind_eq_ok_iff.mp ran
  refine Traced.result_bind_eq_ok_iff.mpr ⟨u ++ below, framed u checked, ?_⟩
  cases demand with
  | true =>
    have verified := Traced.result_lift_eq_ok_iff.mp ran
    exact Traced.result_lift_eq_ok_iff.mpr (verify_append below verified)
  | false =>
    cases ran
    rfl

end SignatureCheck

theorem SignatureInstruction.run_append {z : Nat} {i : SignatureInstruction} {s t : Stack}
    (below : Stack) (ran : (i.run z s).result = .ok t) :
    (i.run z (s ++ below)).result = .ok (t ++ below) := by
  cases i with
  | single demand =>
    exact SignatureCheck.result_demand_append below demand
      (fun u => SignatureCheck.single_append below) ran
  | multiple demand =>
    exact SignatureCheck.result_demand_append below demand
      (fun u => SignatureCheck.multiple_append below) ran

/-- The settings with room for `n` more items. -/
def ScriptSettings.deeper (n : Nat) (settings : ScriptSettings) : ScriptSettings :=
  { settings with maxStackSize := settings.maxStackSize + n }

namespace State

variable {settings : ScriptSettings} {z : Nat} {s t : State} {c : Command}

/-- The state with further items below those of its main stack and those of its second one. -/
def above (below beneath : Stack) (s : State) : State :=
  { s with stack := s.stack ++ below, alt := s.alt ++ beneath }

theorem items_above (below beneath : Stack) (s : State) :
    (s.above below beneath).items = s.items + (below.length + beneath.length) := by
  simp only [items, above, List.length_append]
  omega

/-! ## One step -/

theorem chooseBranch_above {negated : Bool} (below beneath : Stack)
    (chosen : chooseBranch negated s = .ok t) :
    chooseBranch negated (s.above below beneath) = .ok (t.above below beneath) := by
  obtain ⟨condition, stack, b, top, cut, rfl⟩ := exists_of_chooseBranch chosen
  have top' : (s.above below beneath).stack = condition :: (stack ++ below) := by
    simp only [above, top, List.cons_append]
  have cut' : Branches.ofBlock? (s.above below beneath).pending = some b := cut
  simp only [chooseBranch, top', cut']
  rfl

theorem result_apply_above {i : Instruction} (below beneath : Stack) (blind : i ≠ .stack .depth)
    (applied : (i.apply z s).result = .ok t) :
    (i.apply z (s.above below beneath)).result = .ok (t.above below beneath) := by
  rcases apply_cases applied with ⟨j, main, rfl, ran, rfl⟩ | ⟨negated, rfl, chosen⟩ |
    ⟨j, main, alt, rfl, ran, rfl⟩ | ⟨j, main, rfl, ran, rfl⟩
  · have other : j ≠ .depth := by
      rintro rfl
      exact blind rfl
    exact Traced.result_bind_eq_ok_iff.mpr
      ⟨main ++ below, Traced.result_lift_eq_ok_iff.mpr (j.run_append below other ran), rfl⟩
  · exact Traced.result_lift_eq_ok_iff.mpr (chooseBranch_above below beneath chosen)
  · exact Traced.result_bind_eq_ok_iff.mpr ⟨(main ++ below, alt ++ beneath),
      Traced.result_lift_eq_ok_iff.mpr (j.run_append below beneath ran), rfl⟩
  · exact Traced.result_bind_eq_ok_iff.mpr ⟨main ++ below, j.run_append below ran, rfl⟩

/-- A step on top of other items, with room for them. -/
theorem result_step_above (below beneath : Stack) (disabled : settings.redeemScripts = false)
    (blind : c ≠ .op Opcode.opDepth) (stepped : (s.step settings z c).result = .ok t) :
    ((s.above below beneath).step (settings.deeper (below.length + beneath.length)) z c).result =
      .ok (t.above below beneath) := by
  cases c with
  | op code =>
    obtain ⟨room, ⟨i, known, applied⟩, fits⟩ := result_step_op_iff.mp stepped
    have other : i ≠ .stack .depth := by
      rintro rfl
      exact blind (congrArg Command.op (Opcode.eq_opDepth_of_depth known))
    have applied' := result_apply_above below beneath other applied
    refine result_step_op_iff.mpr ⟨room, ⟨i, known, applied'⟩, ?_⟩
    rw [items_above]
    exact Nat.add_le_add_right fits _
  | push data =>
    obtain ⟨rfl, fits⟩ := (result_step_push_iff (Or.inl disabled)).mp stepped
    have disabled' : (settings.deeper (below.length + beneath.length)).redeemScripts = false :=
      disabled
    refine (result_step_push_iff (s := s.above below beneath) (Or.inl disabled')).mpr ⟨rfl, ?_⟩
    rw [items_above]
    exact Nat.add_le_add_right fits _

/-- Without redemption, a step brings no new commands. -/
theorem pending_subset_of_step (disabled : settings.redeemScripts = false)
    (stepped : (s.step settings z c).result = .ok t) : t.pending ⊆ s.pending := by
  cases c with
  | op code =>
    obtain ⟨-, ⟨i, -, applied⟩, -⟩ := result_step_op_iff.mp stepped
    rcases apply_cases applied with ⟨_, _, -, -, rfl⟩ | ⟨negated, -, chosen⟩ |
      ⟨_, _, _, -, -, rfl⟩ | ⟨_, _, -, -, rfl⟩
    · exact List.Subset.refl _
    · obtain ⟨condition, stack, b, -, cut, rfl⟩ := exists_of_chooseBranch chosen
      intro d member
      exact Branches.mem_of_choose cut member
    · exact List.Subset.refl _
    · exact List.Subset.refl _
  | push data =>
    obtain ⟨rfl, -⟩ := (result_step_push_iff (Or.inl disabled)).mp stepped
    exact List.Subset.refl _

/-! ## Runs -/

theorem result_run_above (below beneath : Stack) (disabled : settings.redeemScripts = false)
    (blind : .op Opcode.opDepth ∉ s.pending) (ran : (s.run settings z).result = .ok t) :
    ((s.above below beneath).run (settings.deeper (below.length + beneath.length)) z).result =
      .ok (t.above below beneath) := by
  induction s using induction_on_run settings z with
  | done s pending =>
    rw [result_run_nil pending] at ran
    cases ran
    exact result_run_nil pending
  | fails s c rest e pending failed =>
    rw [result_run_cons pending, failed] at ran
    cases ran
  | moves s c rest u pending stepped ih =>
    rw [result_run_cons pending, stepped] at ran
    rw [pending, List.mem_cons, not_or] at blind
    obtain ⟨other, blind⟩ := blind
    have stepped' := result_step_above below beneath disabled (Ne.symm other) stepped
    have blind' : .op Opcode.opDepth ∉ u.pending :=
      fun member => blind (pending_subset_of_step disabled stepped member)
    have front : (s.above below beneath).pending = c :: rest := pending
    rw [result_run_cons front]
    exact bind_eq_ok_iff.mpr ⟨u.above below beneath, stepped', ih blind' ran⟩

/-- A script that does not ask for the number of items runs in the same way on top of any items, if
there is room for them: they stay where they are, and the same opcodes are counted. -/
theorem result_run_frame (disabled : settings.redeemScripts = false) {script : Script}
    (blind : .op Opcode.opDepth ∉ script) {stack alt : Stack} {n : Nat}
    (ran : (run settings z ⟨script, stack, alt, n⟩).result = .ok t) (below beneath : Stack) :
    (run { settings with maxStackSize := settings.maxStackSize + (below.length + beneath.length) } z
        ⟨script, stack ++ below, alt ++ beneath, n⟩).result =
      .ok ⟨[], t.stack ++ below, t.alt ++ beneath, t.executed⟩ := by
  obtain ⟨-, done⟩ := result_run_iff.mp ran
  obtain ⟨_, stack', alt', n'⟩ := t
  cases done
  exact result_run_above (s := ⟨script, stack, alt, n⟩) below beneath disabled blind ran

section Example

/-- Copies the item at a depth, keeps it on the second stack, and lets a multiple check that asks for
no signature choose the branch that exchanges two items. -/
def digging : Script :=
  [.op 0x51, .op 0x79, .op 0x6b, .op 0x00, .op 0x00, .op 0x00, .op 0xae, .op 0x63, .op 0x7c,
    .op 0x67, .op 0x6a, .op 0x68, .op 0x6c]

/-- The script digs as deep as its own items reach and ends in the same way on top of others. The
opcode that is left out gives different results on top of different items. -/
theorem result_run_frame_digging :
    ((run { redeemScripts := false, maxStackSize := 7 } 0
        ⟨digging, [[0x0b], [0x0a]], [[0x0c]], 0⟩).result =
          .ok ⟨[], [[0x0a], [0x0a], [0x0b]], [[0x0c]], 6⟩ ∧
      (run { redeemScripts := false, maxStackSize := 7 + (2 + 1) } 0
        ⟨digging, [[0x0b], [0x0a]] ++ [[0xaa], []], [[0x0c]] ++ [[0xbb]], 0⟩).result =
          .ok ⟨[], [[0x0a], [0x0a], [0x0b]] ++ [[0xaa], []], [[0x0c]] ++ [[0xbb]], 6⟩) ∧
    (run { redeemScripts := false } 0 ⟨[.op Opcode.opDepth], [], [], 0⟩).result =
        .ok ⟨[], [[]], [], 1⟩ ∧
      (run { redeemScripts := false } 0 ⟨[.op Opcode.opDepth], [] ++ [[0xaa]], [], 0⟩).result =
        .ok ⟨[], [[0x01]] ++ [[0xaa]], [], 1⟩ := by
  have ran : (run { redeemScripts := false, maxStackSize := 7 } 0
      ⟨digging, [[0x0b], [0x0a]], [[0x0c]], 0⟩).result =
        .ok ⟨[], [[0x0a], [0x0a], [0x0b]], [[0x0c]], 6⟩ := by
    decide +kernel
  have framed := result_run_frame rfl (by decide) ran [[0xaa], []] [[0xbb]]
  exact ⟨⟨ran, framed⟩, by decide +kernel, by decide +kernel⟩

end Example

end State

end CoinScript
