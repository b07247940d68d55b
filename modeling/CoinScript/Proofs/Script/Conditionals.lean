import CoinScript.Proofs.Script.Blocks
import CoinScript.Proofs.Script.Steps

/-!
# Conditionals by a stack of truth values

A script can be read from its first to its last command with one truth value
for every block that is open. A command is executed if all of them are true.
An opening that is executed takes its value from the main stack, and one that
is passed over adds a false one. An alternative turns the innermost value
over, and a closing takes it away.

The machine instead cuts a block out of the pending commands when it comes to
the opening. The two agree: what the machine still has pending is what remains
of the open blocks, and it comes to nothing exactly when one of them has no
end. The comparison is of verdicts and stacks; where both fail, the reasons may
differ.
-/

namespace CoinScript

open Branches

/-- A position in a script: the truth values of the open blocks, innermost first, the two stacks, and
the number of opcodes executed. -/
structure Walker where
  conditions : List Bool
  stack : Stack
  alt : Stack
  executed : Nat

namespace Walker

def start : Walker := ⟨[], [], [], 0⟩

/-- The state of the machine at the position, with the given commands pending. -/
def state (w : Walker) (pending : Script) : State := ⟨pending, w.stack, w.alt, w.executed⟩

/-- Counts an opcode that is not a constant. -/
def count (settings : ScriptSettings) (code : UInt8) (w : Walker) : Option Walker :=
  if Opcode.lastConstant < code then
    if w.executed + 1 ≤ settings.maxOps then some { w with executed := w.executed + 1 } else none
  else some w

/-- Checks the size of the stacks. -/
def bound (settings : ScriptSettings) (w : Walker) : Option Walker :=
  if w.stack.length + w.alt.length ≤ settings.maxStackSize then some w else none

/-- Executes an instruction. A conditional opens a block with the condition on the stack. -/
def apply (z : Nat) (w : Walker) : Instruction → Option Walker
  | .stack i => (i.run w.stack).toOption.map fun main => { w with stack := main }
  | .altStack i =>
    (i.run w.stack w.alt).toOption.map fun both => { w with stack := both.1, alt := both.2 }
  | .signature i => (i.run z w.stack).result.toOption.map fun main => { w with stack := main }
  | .conditional negated =>
    match w.stack with
    | [] => none
    | condition :: stack =>
      some { w with
        conditions := (Number.truthy condition != negated) :: w.conditions, stack := stack }

def execute (settings : ScriptSettings) (z : Nat) (w : Walker) : Command → Option Walker
  | .op code => do
    let w ← w.count settings code
    let i ← Opcode.instructionOf? code
    let w ← w.apply z i
    w.bound settings
  | .push data => { w with stack := data :: w.stack }.bound settings

/-- Passes a command, and executes it if every open block is true. -/
def step (settings : ScriptSettings) (z : Nat) (w : Walker) (c : Command) : Option Walker :=
  match c.bracket?, w.conditions with
  | some .alternative, [] => none
  | some .alternative, b :: outer => some { w with conditions := (!b) :: outer }
  | some .closing, [] => none
  | some .closing, _ :: outer => some { w with conditions := outer }
  | bracket, conditions =>
    if conditions.all id then w.execute settings z c
    else if bracket = some .opening then some { w with conditions := false :: conditions }
    else some w

/-- Passes all commands. At the end no block may be open. -/
def walk (settings : ScriptSettings) (z : Nat) : Walker → Script → Option State
  | w, [] => if w.conditions = [] then some (w.state []) else none
  | w, c :: rest => (w.step settings z c).bind fun w => walk settings z w rest

end Walker

/-! ## What remains of open blocks -/

/-- The commands that are left to execute inside open blocks with the given truth values and after
them, if every block has an end. -/
def residual : List Bool → Script → Option Script
  | [], commands => some commands
  | b :: outer, commands => (split? 0 b commands).bind fun block =>
    (residual outer block.rest).map fun rest =>
      (if outer.all id then block.first else []) ++ rest

section Residual

variable {c : Command} {conditions : List Bool} {rest : Script}

theorem residual_alternative {b : Bool} (alternative : c.bracket? = some .alternative) :
    residual (b :: conditions) (c :: rest) = residual ((!b) :: conditions) rest := by
  rw [residual, split?_zero_cons_alternative alternative, residual]

theorem residual_closing {b : Bool} (closing : c.bracket? = some .closing) :
    residual (b :: conditions) (c :: rest) = residual conditions rest := by
  rw [residual, split?_zero_cons_closing closing, Option.bind_some]
  cases conditions.all id <;> simp

/-- Commands that are copied whole into the branch they lie in are left to execute if every open block
is true, and are left out otherwise. -/
theorem residual_append {l : Script} (copied : ∀ side,
      split? 0 side (l ++ rest) = (split? 0 side rest).map (prepend side l)) :
    residual conditions (l ++ rest) =
      (residual conditions rest).map fun after => (if conditions.all id then l else []) ++ after := by
  cases conditions with
  | nil => rfl
  | cons b outer =>
    rw [residual, copied, residual, Option.bind_map, Option.map_bind]
    congr 1
    funext block
    -- Copied into the second branch the commands are gone. In the first one they are as good as the
    -- blocks around it.
    cases b with
    | false =>
      rw [Function.comp_apply, prepend_false]
      simp
    | true =>
      simp only [Function.comp_apply, prepend_true, List.all_cons, id_eq, Bool.true_and, Option.map_map]
      cases outer.all id with
      | false => rfl
      | true => simp only [if_true, List.append_assoc, Function.comp_def]

theorem residual_plain (plain : c.bracket? = none) : residual conditions (c :: rest) =
    (residual conditions rest).map fun after => (if conditions.all id then [c] else []) ++ after :=
  residual_append (l := [c]) fun _ => split?_cons_plain plain

/-- The machine's choice of a branch, by the value that the opening takes. -/
def branch (value : Bool) (commands : Script) : Option Script :=
  (ofBlock? commands).map fun block => block.choose value

theorem branch_eq (value : Bool) (commands : Script) :
    branch value commands = (split? 0 value commands).map fun block => block.first ++ block.rest := by
  cases value with
  | true => rfl
  | false =>
    rw [branch, ofBlock?, ← Bool.not_true, split?_not, Option.map_map]
    rfl

/-- With an opening in front, the commands up to the end of its block are copied. Without an end of
that block, the blocks around it have none either. -/
theorem residual_opening (opening : c.bracket? = some .opening) (value : Bool) :
    (split? 0 value rest = none ∧ (conditions ≠ [] → residual conditions (c :: rest) = none)) ∨
    ∃ block body, split? 0 value rest = some block ∧
      (∀ after, split? 0 value (body ++ after) = some { block with rest := after }) ∧
      residual conditions (c :: rest) = (residual conditions block.rest).map fun after =>
        (if conditions.all id then c :: body else []) ++ after := by
  cases cut : split? 0 value rest with
  | none =>
    refine Or.inl ⟨rfl, fun nested => ?_⟩
    obtain ⟨b, outer, rfl⟩ := List.exists_cons_of_ne_nil nested
    have endless : split? 1 b rest = none := split?_outer_none cut 0 b
    rw [residual, split?_cons_opening opening, endless]
    rfl
  | some block =>
    obtain ⟨body, rfl, same, whole⟩ := exists_body cut
    refine Or.inr ⟨block, body, rfl, same, residual_append (l := c :: body) fun side => ?_⟩
    have inner : split? 1 side (body ++ block.rest) = (split? 0 side block.rest).map _ :=
      whole 0 side block.rest
    rw [List.cons_append, split?_cons_opening opening, inner, Option.map_map]
    rfl

/-- An opening that is passed over adds a false value. -/
theorem residual_opening_skipped (opening : c.bracket? = some .opening)
    (skipped : conditions.all id = false) :
    residual conditions (c :: rest) = residual (false :: conditions) rest := by
  have nested : conditions ≠ [] := by
    rintro rfl
    cases skipped
  rcases @residual_opening c conditions rest opening false with
    ⟨endless, none⟩ | ⟨block, body, cut, -, copied⟩
  · rw [residual, none nested, endless]
    rfl
  · rw [residual, copied, cut, skipped]
    rfl

/-- An opening that is executed stays in front, and the branch that its value chooses behind it is
what remains of its block and of those around it. -/
theorem residual_opening_executed (opening : c.bracket? = some .opening)
    (executed : conditions.all id = true) (value : Bool) {after : Script} :
    residual (value :: conditions) rest = some after ↔
      ∃ behind, residual conditions (c :: rest) = some (c :: behind) ∧
        branch value behind = some after := by
  rcases @residual_opening c conditions rest opening value with
    ⟨endless, none⟩ | ⟨block, body, cut, same, copied⟩
  · rw [residual, endless]
    refine iff_of_false nofun ?_
    rintro ⟨behind, remains, chosen⟩
    cases conditions with
    | nil =>
      cases remains
      rw [branch_eq, endless] at chosen
      cases chosen
    | cons b outer =>
      rw [none (List.cons_ne_nil b outer)] at remains
      cases remains
  · have chosen (outside : Script) : branch value (body ++ outside) = some (block.first ++ outside) := by
      rw [branch_eq, same]
      rfl
    rw [residual, copied, cut, executed, Option.bind_some]
    simp only [if_true, List.cons_append, Option.map_eq_some_iff]
    constructor
    · rintro ⟨outside, remains, rfl⟩
      exact ⟨body ++ outside, ⟨outside, remains, rfl⟩, chosen outside⟩
    · rintro ⟨behind, ⟨outside, remains, front⟩, found⟩
      cases front
      rw [chosen, Option.some.injEq] at found
      exact ⟨outside, remains, found⟩

theorem exists_behind (opening : c.bracket? = some .opening)
    (executed : conditions.all id = true) {pending : Script}
    (remains : residual conditions (c :: rest) = some pending) :
    ∃ behind, pending = c :: behind := by
  rcases @residual_opening c conditions rest opening true with
    ⟨-, none⟩ | ⟨block, body, -, -, copied⟩
  · cases conditions with
    | nil =>
      cases remains
      exact ⟨rest, rfl⟩
    | cons b outer =>
      rw [none (List.cons_ne_nil b outer)] at remains
      cases remains
  · rw [copied, executed] at remains
    obtain ⟨after, -, rfl⟩ := Option.map_eq_some_iff.mp remains
    exact ⟨body ++ after, rfl⟩

end Residual

/-! ## One command -/

namespace Walker

variable {settings : ScriptSettings} {z : Nat} {w w' : Walker} {t : State}

theorem count_eq_some_iff {code : UInt8} : w.count settings code = some w' ↔
    (Opcode.lastConstant < code → w.executed + 1 ≤ settings.maxOps) ∧
      w' = { w with executed := State.counted code w.executed } := by
  unfold count State.counted
  by_cases counts : Opcode.lastConstant < code
  · rw [if_pos counts, if_pos counts]
    by_cases room : w.executed + 1 ≤ settings.maxOps
    · rw [if_pos room, Option.some.injEq, eq_comm]
      exact (and_iff_right fun _ => room).symm
    · rw [if_neg room]
      exact iff_of_false nofun fun h => room (h.1 counts)
  · rw [if_neg counts, if_neg counts, Option.some.injEq, eq_comm]
    exact (and_iff_right fun h => absurd h counts).symm

theorem bound_eq_some_iff : w.bound settings = some w' ↔
    w = w' ∧ (w'.state []).items ≤ settings.maxStackSize := by
  unfold bound
  by_cases fits : w.stack.length + w.alt.length ≤ settings.maxStackSize
  · rw [if_pos fits, Option.some.injEq]
    exact ⟨fun h => ⟨h, h ▸ fits⟩, And.left⟩
  · rw [if_neg fits]
    exact iff_of_false nofun fun ⟨h, small⟩ => fits (h ▸ small)

theorem execute_op_eq_some_iff {code : UInt8} : w.execute settings z (.op code) = some w' ↔
    (Opcode.lastConstant < code → w.executed + 1 ≤ settings.maxOps) ∧
      (∃ i, Opcode.instructionOf? code = some i ∧
        apply z { w with executed := State.counted code w.executed } i = some w') ∧
      (w'.state []).items ≤ settings.maxStackSize := by
  simp only [execute, Option.bind_eq_bind, Option.bind_eq_some_iff, count_eq_some_iff,
    bound_eq_some_iff]
  constructor
  · rintro ⟨_, ⟨room, rfl⟩, i, known, _, applied, rfl, fits⟩
    exact ⟨room, ⟨i, known, applied⟩, fits⟩
  · rintro ⟨room, ⟨i, known, applied⟩, fits⟩
    exact ⟨_, ⟨room, rfl⟩, i, known, w', applied, rfl, fits⟩

/-- Outside conditionals, the machine applies an instruction as the walk does. -/
theorem result_apply_iff {i : Instruction} (ordinary : ∀ negated, i ≠ .conditional negated)
    (pending : Script) : (i.apply z (w.state pending)).result = .ok t ↔
      ∃ w', w.apply z i = some w' ∧ t = w'.state pending := by
  have framed {α : Type} (x : Traced (Fault FailureCode) α) (f : α → Walker) :
      (x >>= fun a => pure ((f a).state pending)).result = .ok t ↔
        ∃ w', x.result.toOption.map f = some w' ∧ t = w'.state pending := by
    rw [Traced.result_bind]
    cases x.result with
    | error e => exact iff_of_false nofun nofun
    | ok a =>
      constructor
      · intro h
        cases h
        exact ⟨f a, rfl, rfl⟩
      · rintro ⟨_, made, rfl⟩
        cases made
        rfl
  have lifted {α : Type} (x : Except FailureCode α) :
      (liftM x : Traced (Fault FailureCode) α).result.toOption = x.toOption := by
    cases x <;> rfl
  cases i with
  | conditional negated => exact absurd rfl (ordinary negated)
  | stack i =>
    rw [apply, ← lifted]
    exact framed (liftM (i.run w.stack)) fun main => { w with stack := main }
  | altStack i =>
    rw [apply, ← lifted]
    exact framed (liftM (i.run w.stack w.alt)) fun both => { w with stack := both.1, alt := both.2 }
  | signature i => exact framed (i.run z w.stack) fun main => { w with stack := main }

theorem conditions_of_apply {i : Instruction} (made : w.apply z i = some w') :
    (∀ negated, i ≠ .conditional negated) ∧ w'.conditions = w.conditions ∨
      (∃ negated, i = .conditional negated) ∧ ∃ value, w'.conditions = value :: w.conditions := by
  cases i with
  | stack i =>
    obtain ⟨_, -, rfl⟩ := Option.map_eq_some_iff.mp made
    exact Or.inl ⟨nofun, rfl⟩
  | altStack i =>
    obtain ⟨_, -, rfl⟩ := Option.map_eq_some_iff.mp made
    exact Or.inl ⟨nofun, rfl⟩
  | signature i =>
    obtain ⟨_, -, rfl⟩ := Option.map_eq_some_iff.mp made
    exact Or.inl ⟨nofun, rfl⟩
  | conditional negated =>
    rw [apply] at made
    split at made
    · cases made
    · cases made
      exact Or.inr ⟨⟨negated, rfl⟩, _, rfl⟩

/-- A conditional takes its value from the stack in both. The machine needs an end of the block. -/
theorem chooseBranch_eq_ok_iff {negated : Bool} (pending : Script) :
    chooseBranch negated (w.state pending) = .ok t ↔
      ∃ w' value after, w.apply z (.conditional negated) = some w' ∧
        w'.conditions = value :: w.conditions ∧ branch value pending = some after ∧
        t = w'.state after := by
  unfold chooseBranch apply branch
  dsimp only [state]
  cases w.stack with
  | nil => exact iff_of_false nofun nofun
  | cons condition stack =>
    dsimp only
    cases ofBlock? pending with
    | none => exact iff_of_false nofun nofun
    | some block =>
      constructor
      · intro h
        cases h
        exact ⟨_, _, _, rfl, rfl, rfl, rfl⟩
      · rintro ⟨_, value, _, made, opened, cut, rfl⟩
        cases made
        cases opened
        cases cut
        rfl

theorem ordinary_of_plain {code : UInt8} (plain : (Command.op code).bracket? = none)
    {i : Instruction} (known : Opcode.instructionOf? code = some i) (negated : Bool) :
    i ≠ .conditional negated := by
  rintro rfl
  rw [Opcode.bracket_of_conditional known] at plain
  cases plain

/-- A command that is no bracket leaves the blocks as they are. -/
theorem conditions_of_execute {c : Command} (plain : c.bracket? = none)
    (made : w.execute settings z c = some w') : w'.conditions = w.conditions := by
  cases c with
  | op code =>
    obtain ⟨-, ⟨i, known, applied⟩, -⟩ := execute_op_eq_some_iff.mp made
    rcases conditions_of_apply applied with ⟨-, kept⟩ | ⟨⟨negated, conditional⟩, -⟩
    · exact kept
    · exact absurd conditional (ordinary_of_plain plain known negated)
  | push data =>
    obtain ⟨rfl, -⟩ := bound_eq_some_iff.mp made
    rfl

/-- A command that is no bracket is executed in the same way. -/
theorem result_step_iff {c : Command} (plain : c.bracket? = none)
    (disabled : settings.redeemScripts = false) (pending : Script) :
    (State.step settings z (w.state pending) c).result = .ok t ↔
      ∃ w', w.execute settings z c = some w' ∧ t = w'.state pending := by
  cases c with
  | op code =>
    have applied {i : Instruction} (known : Opcode.instructionOf? code = some i) :
        (i.apply z (state { w with executed := State.counted code w.executed } pending)).result =
          .ok t ↔ _ :=
      result_apply_iff (ordinary_of_plain plain known) pending
    simp only [State.result_step_op_iff, execute_op_eq_some_iff]
    constructor
    · rintro ⟨room, ⟨i, known, ran⟩, fits⟩
      obtain ⟨w', made, rfl⟩ := (applied known).mp ran
      exact ⟨w', ⟨room, ⟨i, known, made⟩, fits⟩, rfl⟩
    · rintro ⟨w', ⟨room, ⟨i, known, made⟩, fits⟩, rfl⟩
      exact ⟨room, ⟨i, known, (applied known).mpr ⟨w', made, rfl⟩⟩, fits⟩
  | push data =>
    rw [State.result_step_push_iff (Or.inl disabled)]
    simp only [execute, bound_eq_some_iff]
    constructor
    · rintro ⟨rfl, fits⟩
      exact ⟨_, ⟨rfl, fits⟩, rfl⟩
    · rintro ⟨_, ⟨rfl, fits⟩, rfl⟩
      exact ⟨rfl, fits⟩

/-- An opening is executed in the same way, up to the end of its block. -/
theorem result_step_opening_iff {c : Command} (opening : c.bracket? = some .opening)
    (pending : Script) : (State.step settings z (w.state pending) c).result = .ok t ↔
      ∃ w' value after, w.execute settings z c = some w' ∧
        w'.conditions = value :: w.conditions ∧ branch value pending = some after ∧
        t = w'.state after := by
  obtain ⟨code, negated, rfl, -, known⟩ := c.exists_conditional opening
  simp only [State.result_step_op_iff, execute_op_eq_some_iff, known, Option.some.injEq,
    exists_eq_left']
  have applied : (Instruction.apply z (state { w with executed := State.counted code w.executed }
      pending) (.conditional negated)).result = .ok t ↔ _ :=
    Traced.result_lift_eq_ok_iff.trans (chooseBranch_eq_ok_iff (z := z) pending)
  constructor
  · rintro ⟨room, ran, fits⟩
    obtain ⟨w', value, after, made, opened, cut, rfl⟩ := applied.mp ran
    exact ⟨w', value, after, ⟨room, made, fits⟩, opened, cut, rfl⟩
  · rintro ⟨w', value, after, ⟨room, made, fits⟩, opened, cut, rfl⟩
    exact ⟨room, applied.mpr ⟨w', value, after, made, opened, cut, rfl⟩, fits⟩

/-- An opening that is executed opens a block. -/
theorem exists_value_of_execute {c : Command} (opening : c.bracket? = some .opening)
    (made : w.execute settings z c = some w') : ∃ value, w'.conditions = value :: w.conditions := by
  obtain ⟨code, negated, rfl, -, known⟩ := c.exists_conditional opening
  obtain ⟨-, ⟨i, found, applied⟩, -⟩ := execute_op_eq_some_iff.mp made
  rw [known] at found
  cases found
  rcases conditions_of_apply applied with ⟨ordinary, -⟩ | ⟨-, opened⟩
  · exact absurd rfl (ordinary negated)
  · exact opened

/-! ## All commands -/

/-- The machine, on what remains at the position, ends in the state `t`. -/
def EndsIn (settings : ScriptSettings) (z : Nat) (w : Walker) (commands : Script) (t : State) :
    Prop :=
  ∃ pending, residual w.conditions commands = some pending ∧
    (State.run settings z (w.state pending)).result = .ok t

theorem endsIn_nil : EndsIn settings z w [] t ↔ w.conditions = [] ∧ w.state [] = t := by
  unfold EndsIn
  cases conditions : w.conditions with
  | nil =>
    rw [residual, and_iff_right rfl]
    constructor
    · rintro ⟨_, remains, ran⟩
      cases remains
      rw [State.result_run_nil rfl] at ran
      exact Except.ok.inj ran
    · rintro rfl
      exact ⟨[], rfl, State.result_run_nil rfl⟩
  | cons b outer =>
    rw [residual, split?_nil]
    exact iff_of_false nofun nofun

section Step

variable {c : Command} {rest : Script}

theorem endsIn_skipped_plain (plain : c.bracket? = none) (skipped : w.conditions.all id = false) :
    EndsIn settings z w (c :: rest) t ↔ EndsIn settings z w rest t := by
  unfold EndsIn
  rw [residual_plain plain, skipped]
  simp only [Bool.false_eq_true, if_false, List.nil_append, Option.map_id']

theorem endsIn_executed_plain (disabled : settings.redeemScripts = false)
    (plain : c.bracket? = none) (executed : w.conditions.all id = true) :
    EndsIn settings z w (c :: rest) t ↔
      ∃ w', w.execute settings z c = some w' ∧ EndsIn settings z w' rest t := by
  unfold EndsIn
  rw [residual_plain plain, executed]
  constructor
  · rintro ⟨_, remains, ran⟩
    obtain ⟨after, found, rfl⟩ := Option.map_eq_some_iff.mp remains
    rw [State.result_run_cons rfl, bind_eq_ok_iff] at ran
    obtain ⟨u, stepped, ran⟩ := ran
    obtain ⟨w', made, rfl⟩ := (result_step_iff plain disabled after).mp stepped
    rw [← conditions_of_execute plain made] at found
    exact ⟨w', made, after, found, ran⟩
  · rintro ⟨w', made, after, found, ran⟩
    rw [conditions_of_execute plain made] at found
    refine ⟨c :: after, by rw [found]; rfl, ?_⟩
    rw [State.result_run_cons rfl, bind_eq_ok_iff]
    exact ⟨_, (result_step_iff plain disabled after).mpr ⟨w', made, rfl⟩, ran⟩

theorem endsIn_skipped_opening (opening : c.bracket? = some .opening)
    (skipped : w.conditions.all id = false) :
    EndsIn settings z w (c :: rest) t ↔
      EndsIn settings z { w with conditions := false :: w.conditions } rest t := by
  unfold EndsIn
  rw [residual_opening_skipped opening skipped]
  rfl

theorem endsIn_executed_opening (opening : c.bracket? = some .opening)
    (executed : w.conditions.all id = true) :
    EndsIn settings z w (c :: rest) t ↔
      ∃ w', w.execute settings z c = some w' ∧ EndsIn settings z w' rest t := by
  unfold EndsIn
  constructor
  · rintro ⟨_, remains, ran⟩
    obtain ⟨behind, rfl⟩ := exists_behind opening executed remains
    rw [State.result_run_cons rfl, bind_eq_ok_iff] at ran
    obtain ⟨u, stepped, ran⟩ := ran
    obtain ⟨w', value, after, made, opened, chosen, rfl⟩ :=
      (result_step_opening_iff opening behind).mp stepped
    have found : residual w'.conditions rest = some after := by
      rw [opened, residual_opening_executed opening executed]
      exact ⟨behind, remains, chosen⟩
    exact ⟨w', made, after, found, ran⟩
  · rintro ⟨w', made, after, found, ran⟩
    obtain ⟨value, opened⟩ := exists_value_of_execute opening made
    rw [opened, residual_opening_executed opening executed] at found
    obtain ⟨behind, remains, chosen⟩ := found
    refine ⟨c :: behind, remains, ?_⟩
    rw [State.result_run_cons rfl, bind_eq_ok_iff]
    exact ⟨_, (result_step_opening_iff opening behind).mpr
      ⟨w', value, after, made, opened, chosen, rfl⟩, ran⟩

/-- Outside of all blocks, an alternative or a closing ends the run in a failure. -/
theorem not_endsIn_stray (stray : c.bracket? = some .alternative ∨ c.bracket? = some .closing)
    (outside : w.conditions = []) : ¬EndsIn settings z w (c :: rest) t := by
  rintro ⟨_, remains, ran⟩
  rw [outside] at remains
  cases remains
  have code : c = .op Opcode.opElse ∨ c = .op Opcode.opEndIf := by
    unfold Command.bracket? at stray
    split at stray
    · rcases stray with stray | stray <;> cases stray
    · split at stray
      · exact Or.inl ‹_›
      · split at stray
        · exact Or.inr ‹_›
        · rcases stray with stray | stray <;> cases stray
  rcases code with rfl | rfl <;>
  · obtain ⟨-, _, failed, -⟩ := (State.result_run_stack_iff (i := .stray) rfl).mp ran
    cases failed

/-- A step of the walk passes from what remains before a command to what remains after it. -/
theorem endsIn_cons_iff (disabled : settings.redeemScripts = false) :
    EndsIn settings z w (c :: rest) t ↔
      ∃ w', w.step settings z c = some w' ∧ EndsIn settings z w' rest t := by
  unfold step
  -- The cases are no bracket, an opening, an alternative and a closing.
  rcases bracket : c.bracket? with _ | _ | _ | _
  · cases executed : w.conditions.all id with
    | false => simp [executed, endsIn_skipped_plain bracket executed]
    | true => simp [executed, endsIn_executed_plain disabled bracket executed]
  · cases executed : w.conditions.all id with
    | false => simp [executed, endsIn_skipped_opening bracket executed]
    | true => simp [executed, endsIn_executed_opening bracket executed]
  · cases conditions : w.conditions with
    | nil => exact iff_of_false (not_endsIn_stray (Or.inl bracket) conditions) nofun
    | cons b outer =>
      simp only [Option.some.injEq, exists_eq_left']
      unfold EndsIn
      rw [conditions, residual_alternative bracket]
      rfl
  · cases conditions : w.conditions with
    | nil => exact iff_of_false (not_endsIn_stray (Or.inr bracket) conditions) nofun
    | cons b outer =>
      simp only [Option.some.injEq, exists_eq_left']
      unfold EndsIn
      rw [conditions, residual_closing bracket]
      rfl

end Step

/-- From any position, the walk and the machine come to the same end. -/
theorem walk_eq_some_iff (disabled : settings.redeemScripts = false) (commands : Script) :
    walk settings z w commands = some t ↔ EndsIn settings z w commands t := by
  induction commands generalizing w with
  | nil =>
    rw [walk, endsIn_nil]
    by_cases closed : w.conditions = []
    · rw [if_pos closed, Option.some.injEq, and_iff_right closed]
    · rw [if_neg closed]
      exact iff_of_false nofun fun h => closed h.1
  | cons c rest ih =>
    rw [walk, Option.bind_eq_some_iff, endsIn_cons_iff disabled]
    exact exists_congr fun w' => and_congr_right fun _ => ih

end Walker

namespace Script

/-- Without redemption, the machine ends in the same state as the walk and with the same verdict, and
it fails exactly where the walk fails. -/
theorem evaluate_walk {settings : ScriptSettings} (disabled : settings.redeemScripts = false)
    (z : Nat) (script : Script) :
    ((State.ofScript script).run settings z).result.toOption =
        Walker.start.walk settings z script ∧
      (evaluate settings z script).result.toOption =
        (Walker.start.walk settings z script).map State.succeeds := by
  have reached (t : State) : Walker.start.walk settings z script = some t ↔
      ((State.ofScript script).run settings z).result = .ok t := by
    rw [Walker.walk_eq_some_iff disabled]
    exact ⟨fun ⟨_, remains, ran⟩ => by cases remains; exact ran, fun ran => ⟨script, rfl, ran⟩⟩
  constructor
  · refine Option.ext fun t => ?_
    rw [toOption_eq_some_iff, reached]
  · refine Option.ext fun b => ?_
    rw [toOption_eq_some_iff, result_evaluate_iff, Option.map_eq_some_iff]
    exact exists_congr fun t => and_congr_left fun _ => (reached t).symm

/-- A block in the first branch of another one, of which the second branch is executed. -/
theorem evaluate_walk_nested :
    (evaluate { redeemScripts := false } 0
        [.op 0x51, .op Opcode.opIf, .op 0x51, .op Opcode.opNotIf, .op 0x00, .op Opcode.opElse,
          .op 0x52, .op Opcode.opEndIf, .op Opcode.opElse, .op 0x6a,
          .op Opcode.opEndIf]).result.toOption = some true :=
  (evaluate_walk rfl 0 _).2.trans (by decide +kernel)

end Script

end CoinScript
