import CoinScript.Guarded.Machine
import CoinScript.Proofs.Guarded.Signature
import CoinScript.Proofs.Guarded.Wire
import CoinScript.Proofs.Script.Blocks

/-!
# Evaluation never crashes

The machine on vectors holds the state of the machine on stacks, with the
stacks in reverse. Each of its steps follows the step on stacks: a depth is
only counted down inside a block, the template is in the queue when it was
recognised, and the script to redeem is on top of the pile because it was just
pushed. Whole runs follow each other by induction over the run, whose length
the weight of the commands bounds. An evaluation gives its verdict or names the
command that failed.
-/

namespace CoinScript

open Guarded

/-! ## Blocks -/

namespace Branches

/-- The branches that are collected first come in front, and nothing is left of their rest. -/
def append (b b' : Branches) : Branches := ⟨b.first ++ b'.first, b.second ++ b'.second, b'.rest⟩

theorem append_cons (b b' : Branches) (inFirst : Bool) (c : Command) :
    b.append (cons inFirst c b') = (b.snoc inFirst c).append b' := by
  cases inFirst <;> simp [append, cons, snoc]

/-- The loop collects the branches of the cut behind those it has. -/
theorem collect_eq (b : Branches) (inFirst : Bool) (depth : Nat) (commands : Script) :
    b.collect inFirst depth commands =
      (split? depth inFirst commands).elim (fail .unbalancedConditional)
        fun b' => .ok (b.append b') := by
  induction commands generalizing b inFirst depth with
  | nil => rfl
  | cons c rest ih =>
    have copied (next : Nat) : (b.snoc inFirst c).collect inFirst next rest =
        ((split? next inFirst rest).map (cons inFirst c)).elim (fail .unbalancedConditional)
          fun b' => .ok (b.append b') := by
      rw [ih]
      cases split? next inFirst rest with
      | none => rfl
      | some b' => exact congrArg Except.ok (append_cons b b' inFirst c).symm
    rw [collect]
    rcases bracket : c.bracket? with _ | _ | _ | _
    · rw [split?_cons_plain bracket]
      exact copied depth
    · rw [split?_cons_opening bracket]
      exact copied (depth + 1)
    · cases depth with
      | zero =>
        rw [split?_zero_cons_alternative bracket]
        exact ih b (!inFirst) 0
      | succ depth =>
        rw [split?_succ_cons_alternative bracket]
        exact copied (depth + 1)
    · cases depth with
      | zero =>
        rw [split?_zero_cons_closing bracket]
        simp [append]
      | succ depth =>
        -- Inside a block the depth is positive, so that it can be counted down.
        rw [split?_succ_cons_closing bracket]
        dsimp only
        rw [if_neg (Nat.succ_ne_zero depth), difference_add, ok_bind]
        exact copied depth

end Branches

/-! ## One step -/

/-- The state of the machine on vectors. -/
def State.memory (s : State) : Memory := ⟨s.pending, s.stack.reverse, s.alt.reverse, s.executed⟩

theorem State.memory_surjective (m : Memory) : ∃ s : State, s.memory = m := by
  refine ⟨⟨m.queue, m.stack.reverse, m.alt.reverse, m.executed⟩, ?_⟩
  rw [memory, List.reverse_reverse, List.reverse_reverse]

theorem chooseBranch_memory (negated : Bool) (s : State) :
    s.memory.chooseBranch negated = ofResult ((chooseBranch negated s).map State.memory) := by
  obtain ⟨pending, stack, alt, n⟩ := s
  cases stack with
  | nil => rfl
  | cons condition stack =>
    simp only [Memory.chooseBranch, State.memory]
    rw [Pile.pop_reverse_cons, ok_bind, Branches.collect_eq, chooseBranch, Branches.ofBlock?]
    dsimp only
    cases Branches.split? 0 true pending with
    | none => rfl
    | some b =>
      dsimp only [Option.elim]
      rw [ok_bind, Number.guardedTruthy_eq, ok_bind]
      rfl

theorem Instruction.follows_apply (i : Instruction) (z : Nat) (s : State) :
    Follows State.memory (i.onPiles z s.memory) (i.apply z s) := by
  cases i with
  | stack i =>
    exact (follows_lift (i.onPile_reverse s.stack)).bind fun main _ =>
      follows_pure { s with stack := main }
  | conditional negated => exact follows_lift (chooseBranch_memory negated s)
  | altStack i =>
    exact (follows_lift (i.onPiles_reverse s.stack s.alt)).bind fun both _ =>
      follows_pure { s with stack := both.1, alt := both.2 }
  | signature i =>
    exact (i.follows_run z s.stack).bind fun main _ => follows_pure { s with stack := main }

namespace State

variable {settings : ScriptSettings} {z : Nat}

theorem follows_count (code : UInt8) (s : State) :
    Follows memory (s.memory.count settings code) (s.count settings code) := by
  rw [Memory.count, count]
  split
  · change Follows memory (if settings.maxOps < s.executed + 1 then _ else _) _
    split
    · exact follows_fail _
    · exact follows_pure { s with executed := s.executed + 1 }
  · exact follows_pure s

theorem follows_note (e : Event) (unrefused : ∀ e', e ≠ .verificationRejected e') :
    Follows id (.ok ()) (note settings e) := by
  unfold note
  split
  · refine ⟨rfl, fun e' member => ?_⟩
    exact unrefused e' (List.mem_singleton.mp member).symm
  · exact follows_pure (f := id) ()

theorem follows_mapError {name : String} {x : Guarded FailureCode Memory}
    {t : Traced (Fault FailureCode) State} (first : Follows memory x t) :
    Follows memory (mapFailure (fun reason => ⟨reason, name⟩) x) (t.mapError (failedAt name)) := by
  obtain ⟨rfl, quiet⟩ := first
  obtain ⟨events, (e | m) | s⟩ := t
  · refine ⟨rfl, fun e' member => ?_⟩
    rcases List.mem_append.mp member with before | failed
    · exact quiet e' before
    · cases List.mem_singleton.mp failed
  · refine ⟨rfl, fun e' member => ?_⟩
    rcases List.mem_append.mp member with before | failed
    · exact quiet e' before
    · cases failed
  · exact ⟨rfl, quiet⟩

theorem follows_executeOp (code : UInt8) (s : State) :
    Follows memory (s.memory.executeOp settings z code) (s.executeOp settings z code) := by
  refine (follows_count code s).bind fun t _ => ?_
  refine (follows_note (.executing (Opcode.nameOf code) t.stack.length) nofun).before ?_
  refine follows_mapError ?_
  cases Opcode.instructionOf? code with
  | none => exact follows_fail _
  | some i => exact i.follows_apply z t

/-- The template is in the queue if it was recognised there. -/
theorem follows_redeem {s : State} {hash data : Bytes} {stack : Stack}
    (template : Script.scriptHash? s.pending = some hash) (top : s.stack = data :: stack) :
    Follows memory (s.memory.redeem settings) (s.redeem settings) := by
  obtain ⟨pending, main, alt, n⟩ := s
  obtain ⟨rfl, -⟩ := Script.scriptHash?_eq_some_iff.mp template
  cases top
  have matched :
      Memory.redeem settings (memory ⟨Script.payToScriptHash hash, data :: stack, alt, n⟩) =
      if Digest.hash160 data ≠ hash then fail ⟨.redeemHashMismatch, Opcode.nameOf Opcode.opEqual⟩
      else mapFailure (fun _ => ⟨.redeemUnreadable, Opcode.nameOf Opcode.opHash160⟩)
          (Script.guardedParseRaw settings.maxScriptSize data) >>= fun commands =>
        .ok (memory ⟨commands, stack, alt, n⟩) := by
    simp only [Memory.redeem, memory, Script.payToScriptHash, and_self, if_true,
      List.getLast?_reverse, List.head?_cons, List.dropLast_reverse, List.tail_cons, List.nil_append]
    rfl
  rw [matched, redeem, template]
  dsimp only
  by_cases same : Digest.hash160 data = hash
  · rw [if_neg (not_not_intro same), if_pos same, Script.guardedParseRaw_eq, mapFailure_ofResult]
    cases Script.parseRaw settings.maxScriptSize data with
    | error e => exact ⟨rfl, fun _ => by simp⟩
    | ok commands => exact ⟨rfl, fun _ => by simp⟩
  · rw [if_pos same, if_neg same]
    exact ⟨rfl, fun _ => by simp⟩

theorem follows_executePush (data : Bytes) (s : State) :
    Follows memory (s.memory.executePush settings data) (s.executePush settings data) := by
  refine (follows_note (.pushing data.length) nofun).before ?_
  unfold Memory.executePush
  simp only [memory, Pile.push_reverse]
  split
  · rename_i redeemed
    obtain ⟨hash, template⟩ := Option.isSome_iff_exists.mp redeemed.2
    exact follows_redeem (s := { s with stack := data :: s.stack }) template rfl
  · exact follows_pure { s with stack := data :: s.stack }

theorem follows_step (c : Command) (s : State) :
    Follows memory (s.memory.step settings z c) (s.step settings z c) := by
  have executed : Follows memory (s.memory.execute settings z c) (s.execute settings z c) := by
    cases c with
    | op code => exact follows_executeOp code s
    | push data => exact follows_executePush data s
  refine executed.bind fun t _ => ?_
  have size : t.memory.stack.length + t.memory.alt.length = t.items := by
    rw [memory, List.length_reverse, List.length_reverse, items]
  rw [size]
  split
  · exact follows_fail _
  · exact follows_pure t

end State

/-! ## Runs -/

namespace Memory

/-- Every step takes weight from the queue. -/
theorem weight_step {settings : ScriptSettings} {z : Nat} {c : Command} {m n : Memory}
    (stepped : m.step settings z c = .ok n) : n.queue.weight < c.weight + m.queue.weight := by
  obtain ⟨s, rfl⟩ := State.memory_surjective m
  rw [(s.follows_step c).same] at stepped
  rcases ended : (s.step settings z c).result with (e | m) | t
  · rw [ended] at stepped
    cases stepped
  · rw [ended] at stepped
    cases stepped
  · rw [ended] at stepped
    cases stepped
    exact State.weight_step ended

/-- Executes all commands in the queue. -/
def run (settings : ScriptSettings) (z : Nat) (m : Memory) : Guarded ScriptFailure Memory :=
  match _queue : m.queue with
  | [] => .ok m
  | c :: rest =>
    match _stepped : step settings z { m with queue := rest } c with
    | .error halt => .error halt
    | .ok n => run settings z n
termination_by m.queue.weight
decreasing_by
  rw [_queue]
  exact weight_step _stepped

theorem run_nil {settings : ScriptSettings} {z : Nat} {m : Memory} (empty : m.queue = []) :
    m.run settings z = .ok m := by
  rw [run]
  split
  · rfl
  · rename_i queue
    rw [empty] at queue
    cases queue

theorem run_cons {settings : ScriptSettings} {z : Nat} {m : Memory} {c : Command} {rest : Script}
    (queue : m.queue = c :: rest) :
    m.run settings z =
      step settings z { m with queue := rest } c >>= fun n => n.run settings z := by
  rw [run]
  split
  · rename_i empty
    rw [queue] at empty
    cases empty
  · rename_i c' rest' found
    rw [queue] at found
    cases found
    split
    · rename_i halt stopped
      rw [stopped]
      rfl
    · rename_i n stepped
      rw [stepped]
      rfl

end Memory

namespace State

variable {settings : ScriptSettings} {z : Nat} {s : State}

theorem follows_run (s : State) : Follows memory (s.memory.run settings z) (s.run settings z) := by
  induction s using induction_on_run settings z with
  | done s pending =>
    rw [run_nil pending, Memory.run_nil pending]
    exact follows_pure s
  | fails s c rest e pending failed =>
    rw [run_cons pending, Memory.run_cons pending]
    refine (follows_step c { s with pending := rest }).bind fun t stepped => ?_
    rw [failed] at stepped
    cases stepped
  | moves s c rest t pending stepped ih =>
    rw [run_cons pending, Memory.run_cons pending]
    refine (follows_step c { s with pending := rest }).bind fun u stepped' => ?_
    rw [stepped] at stepped'
    cases stepped'
    exact ih

end State

namespace Script

/-- Whether the script succeeds on empty piles. -/
def evaluateOnPiles (settings : ScriptSettings) (z : Nat) (s : Script) :
    Guarded ScriptFailure Bool := do
  let final ← (Memory.ofScript s).run settings z
  match final.stack.getLast? with
  | none => return false
  | some top => Number.guardedTruthy top

theorem follows_evaluate (settings : ScriptSettings) (z : Nat) (s : Script) :
    Follows id (s.evaluateOnPiles settings z) (s.evaluate settings z) := by
  refine (State.follows_run (State.ofScript s)).bind fun final _ => ?_
  obtain ⟨pending, stack, alt, n⟩ := final
  rw [State.memory, List.getLast?_reverse]
  cases stack with
  | nil => exact follows_pure (f := id) false
  | cons top stack =>
    dsimp only [List.head?_cons]
    rw [Number.guardedTruthy_eq]
    exact follows_pure (f := id) (Number.truthy top)

/-- Whatever the script, the number signed and the settings are, no operation of the evaluation
leaves its domain and no case is reached that is not meant to be: the evaluation gives a verdict or
names the command that failed, and it is the one of the machine on stacks. Arithmetic on the curve
refuses no key. -/
theorem evaluateOnPiles_never_crashes (settings : ScriptSettings) (z : Nat) (s : Script) :
    ((∃ verdict, s.evaluateOnPiles settings z = .ok verdict ∧
        (s.evaluate settings z).result = .ok verdict) ∨
      ∃ failure, s.evaluateOnPiles settings z = fail failure ∧
        (s.evaluate settings z).result = .error (.error failure)) ∧
      ∀ e, Event.verificationRejected e ∉ (s.evaluate settings z).events := by
  obtain ⟨same, quiet⟩ := follows_evaluate settings z s
  refine ⟨?_, quiet⟩
  rcases result_evaluate_cases settings z s with ⟨verdict, ended⟩ | ⟨failure, ended⟩
  · rw [ended] at same
    exact Or.inl ⟨verdict, same, ended⟩
  · rw [ended] at same
    exact Or.inr ⟨failure, same, ended⟩

end Script

end CoinScript
