import CoinScript.Proofs.Script.Separation

/-!
# The segments of a block

The alternatives of a block divide it into segments. A segment is balanced: the
blocks that it opens are closed in it, and it has alternatives within these
blocks only. Cutting a block succeeds exactly if the commands are balanced
segments with an alternative between each two of them, then a closing, and then
what remains. There is only one way to divide them so, and the branches are
every other segment, beginning with the first one or with the second.
-/

namespace CoinScript

open Branches

theorem Command.eq_opElse_of_alternative {c : Command}
    (alternative : c.bracket? = some .alternative) : c = .op Opcode.opElse := by
  unfold bracket? at alternative
  split at alternative
  · cases alternative
  split at alternative
  · assumption
  split at alternative
  · cases alternative
  · cases alternative

theorem Command.eq_opEndIf_of_closing {c : Command} (closing : c.bracket? = some .closing) :
    c = .op Opcode.opEndIf := by
  unfold bracket? at closing
  split at closing
  · cases closing
  split at closing
  · cases closing
  split at closing
  · assumption
  · cases closing

namespace Script

/-- Every opening is closed within the commands, and nothing else is. Alternatives belong to a block
that is opened within the commands, or, for commands `inside` of a block, to that block. -/
inductive Balanced : (inside : Bool) → Script → Prop
  | nil {inside : Bool} : Balanced inside []
  | plain {inside : Bool} {c : Command} {s : Script} :
      c.bracket? = none → Balanced inside s → Balanced inside (c :: s)
  | alternative {s : Script} : Balanced true s → Balanced true (.op Opcode.opElse :: s)
  | block {inside : Bool} {c : Command} {body s : Script} :
      c.bracket? = some .opening → Balanced true body → Balanced inside s →
        Balanced inside (c :: (body ++ .op Opcode.opEndIf :: s))

/-- A command that cannot stand in balanced commands outside of their blocks. -/
def Ends (inside : Bool) (c : Command) : Prop :=
  c = .op Opcode.opEndIf ∨ inside = false ∧ c = .op Opcode.opElse

variable {inside : Bool} {c d : Command} {s t q r r' : Script}

/-! ## Balanced commands in front of others -/

/-- Balanced commands are copied whole, with as many blocks open after them as before. -/
theorem Balanced.split?_append (own : s.Balanced inside) {depth : Nat}
    (deep : inside = true → 0 < depth) (side : Bool) :
    split? depth side (s ++ r) = (split? depth side r).map (prepend side s) := by
  induction own generalizing depth r with
  | nil =>
    rw [List.nil_append]
    cases split? depth side r <;> rfl
  | plain plain _ ih =>
    rw [List.cons_append, split?_cons_plain plain, ih deep, Option.map_map]
    rfl
  | alternative _ ih =>
    obtain ⟨depth, rfl⟩ := Nat.exists_eq_add_one.mpr (deep rfl)
    rw [List.cons_append, split?_succ_cons_alternative rfl, ih deep, Option.map_map]
    rfl
  | block opening _ _ ih_body ih =>
    rw [List.cons_append, split?_cons_opening opening, List.append_assoc,
      ih_body fun _ => Nat.succ_pos depth, List.cons_append, split?_succ_cons_closing rfl, ih deep,
      Option.map_map, Option.map_map, Option.map_map]
    congr 1
    funext b
    simp only [Function.comp_apply, prepend, List.foldr_cons, List.foldr_append]

/-- Nothing outside of a block comes before what follows balanced commands. -/
theorem Balanced.encloses_append (own : s.Balanced inside) {depth : Nat}
    (deep : inside = true → 0 < depth) : encloses depth (s ++ r) = encloses depth r := by
  induction own generalizing depth r with
  | nil => rfl
  | plain plain _ ih =>
    simp only [List.cons_append, encloses, plain]
    exact ih deep
  | alternative _ ih =>
    obtain ⟨depth, rfl⟩ := Nat.exists_eq_add_one.mpr (deep rfl)
    exact ih deep
  | block opening _ _ ih_body ih =>
    simp only [List.cons_append, encloses, opening, List.append_assoc]
    rw [ih_body fun _ => Nat.succ_pos depth]
    exact ih deep

theorem Ends.not_balanced (ends : Ends false c) (first : s.Balanced false) :
    ¬(s ++ c :: r).Balanced false := by
  intro whole
  have closed : encloses 0 (s ++ c :: r) = true := by
    rw [← List.append_nil (s ++ c :: r), whole.encloses_append nofun]
    rfl
  rw [first.encloses_append nofun] at closed
  rcases ends with rfl | ⟨-, rfl⟩
  · cases closed
  · cases closed

/-- Balanced commands reach up to the first command that ends them. -/
theorem Balanced.append_inj (first : s.Balanced false) (second : t.Balanced false)
    (ends : Ends false c) (ends' : Ends false d) (same : s ++ c :: r = t ++ d :: r') :
    s = t ∧ c = d ∧ r = r' := by
  rcases List.append_eq_append_iff.mp same with ⟨more, rfl, others⟩ | ⟨more, rfl, others⟩
  · cases more with
    | nil =>
      obtain ⟨rfl, rfl⟩ := List.cons.inj others
      exact ⟨(List.append_nil s).symm, rfl, rfl⟩
    | cons e more =>
      obtain ⟨rfl, -⟩ := List.cons.inj others
      exact absurd second (ends.not_balanced first)
  · cases more with
    | nil =>
      obtain ⟨rfl, rfl⟩ := List.cons.inj others
      exact ⟨List.append_nil t, rfl, rfl⟩
    | cons e more =>
      obtain ⟨rfl, -⟩ := List.cons.inj others
      exact absurd first (ends'.not_balanced second)

/-- Where a block ends, balanced commands come first and then a command that ends them. -/
theorem exists_balanced {depth : Nat} {side : Bool} (found : (split? depth side q).isSome) :
    ∃ (s : Script) (c : Command) (r : Script),
      q = s ++ c :: r ∧ s.Balanced (depth != 0) ∧ Ends (depth != 0) c := by
  induction h : q.length using Nat.strongRecOn generalizing q depth with
  | ind n ih =>
  cases q with
  | nil => cases found
  | cons c q =>
    subst h
    have shorter : q.length < (c :: q).length := Nat.lt_succ_self _
    rcases bracket : c.bracket? with _ | _ | _ | _
    · rw [split?_cons_plain bracket, Option.isSome_map] at found
      obtain ⟨s, d, r, rfl, own, ends⟩ := ih _ shorter found rfl
      exact ⟨c :: s, d, r, rfl, .plain bracket own, ends⟩
    · rw [split?_cons_opening bracket, Option.isSome_map] at found
      obtain ⟨body, d, r, rfl, own, rfl | ⟨outside, -⟩⟩ := ih _ shorter found rfl
      · -- behind the inner block the search goes on as if it had not been there
        rw [own.split?_append fun _ => Nat.succ_pos depth, split?_succ_cons_closing rfl,
          Option.isSome_map, Option.isSome_map] at found
        obtain ⟨s, e, r, rfl, others, ends⟩ := ih r.length (by simp; omega) found rfl
        refine ⟨c :: (body ++ .op Opcode.opEndIf :: s), e, r, ?_, .block bracket own others, ends⟩
        simp
      · cases outside
    · obtain rfl := Command.eq_opElse_of_alternative bracket
      cases depth with
      | zero => exact ⟨[], _, q, rfl, .nil, Or.inr ⟨rfl, rfl⟩⟩
      | succ depth =>
        rw [split?_succ_cons_alternative bracket, Option.isSome_map] at found
        obtain ⟨s, d, r, rfl, own, ends⟩ := ih _ shorter found rfl
        exact ⟨_ :: s, d, r, rfl, .alternative own, ends⟩
    · obtain rfl := Command.eq_opEndIf_of_closing bracket
      exact ⟨[], _, q, rfl, .nil, Or.inl rfl⟩

/-! ## Segments -/

/-- The commands are balanced segments with alternatives between them, a closing, and the rest. -/
structure IsDivided (q : Script) (segments : List Script) (rest : Script) : Prop where
  nonempty : segments ≠ []
  balanced : ∀ s ∈ segments, s.Balanced false
  commands : q = [.op Opcode.opElse].intercalate segments ++ .op Opcode.opEndIf :: rest

/-- Every other segment, with the first one or without it. -/
def alternate : (first : Bool) → List Script → Script
  | _, [] => []
  | first, s :: segments => (if first then s else []) ++ alternate (!first) segments

variable {segments others : List Script} {rest rest' : Script}

theorem isDivided_singleton_iff :
    IsDivided q [s] rest ↔ s.Balanced false ∧ q = s ++ .op Opcode.opEndIf :: rest := by
  constructor
  · rintro ⟨-, balanced, commands⟩
    rw [List.intercalate_singleton] at commands
    exact ⟨balanced s List.mem_cons_self, commands⟩
  · rintro ⟨own, commands⟩
    refine ⟨List.cons_ne_nil _ _, fun t member => ?_, ?_⟩
    · rwa [List.mem_singleton.mp member]
    · rw [List.intercalate_singleton, commands]

theorem isDivided_cons_iff (more : segments ≠ []) :
    IsDivided q (s :: segments) rest ↔ s.Balanced false ∧
      ∃ q', q = s ++ .op Opcode.opElse :: q' ∧ IsDivided q' segments rest := by
  obtain ⟨t, segments, rfl⟩ := List.exists_cons_of_ne_nil more
  constructor
  · rintro ⟨-, balanced, commands⟩
    refine ⟨balanced s List.mem_cons_self, _, ?_, more,
      fun u member => balanced u (List.mem_cons_of_mem s member), rfl⟩
    rw [commands, List.intercalate_cons_cons]
    simp
  · rintro ⟨own, q', commands, -, balanced, rfl⟩
    refine ⟨List.cons_ne_nil _ _, fun u member => ?_, ?_⟩
    · rcases List.mem_cons.mp member with rfl | member
      · exact own
      · exact balanced u member
    · rw [commands, List.intercalate_cons_cons]
      simp

theorem exists_isDivided {side : Bool} (found : (split? 0 side q).isSome) :
    ∃ segments rest, IsDivided q segments rest := by
  induction h : q.length using Nat.strongRecOn generalizing q side with
  | ind n ih =>
  obtain ⟨s, c, r, rfl, own, rfl | ⟨-, rfl⟩⟩ := exists_balanced found
  · exact ⟨[s], r, isDivided_singleton_iff.mpr ⟨own, rfl⟩⟩
  · rw [own.split?_append nofun, Option.isSome_map, split?_zero_cons_alternative rfl] at found
    obtain ⟨segments, rest, divided⟩ := ih r.length (by simp [← h]; omega) found rfl
    exact ⟨s :: segments, rest, (isDivided_cons_iff divided.nonempty).mpr ⟨own, r, rfl, divided⟩⟩

theorem IsDivided.unique (first : IsDivided q segments rest) (second : IsDivided q others rest') :
    segments = others ∧ rest = rest' := by
  have separate : (Command.op Opcode.opElse) ≠ .op Opcode.opEndIf := by decide
  induction segments generalizing q others with
  | nil => exact absurd rfl first.nonempty
  | cons s segments ih =>
    cases others with
    | nil => exact absurd rfl second.nonempty
    | cons t others =>
      by_cases more : segments = []
      · subst more
        obtain ⟨own, rfl⟩ := isDivided_singleton_iff.mp first
        by_cases more : others = []
        · subst more
          obtain ⟨own', same⟩ := isDivided_singleton_iff.mp second
          obtain ⟨rfl, -, rfl⟩ := own.append_inj own' (Or.inl rfl) (Or.inl rfl) same
          exact ⟨rfl, rfl⟩
        · obtain ⟨own', q', same, -⟩ := (isDivided_cons_iff more).mp second
          obtain ⟨-, same, -⟩ := own.append_inj own' (Or.inl rfl) (Or.inr ⟨rfl, rfl⟩) same
          exact absurd same.symm separate
      · obtain ⟨own, q', rfl, divided⟩ := (isDivided_cons_iff more).mp first
        by_cases more : others = []
        · subst more
          obtain ⟨own', same⟩ := isDivided_singleton_iff.mp second
          obtain ⟨-, same, -⟩ := own.append_inj own' (Or.inr ⟨rfl, rfl⟩) (Or.inl rfl) same
          exact absurd same separate
        · obtain ⟨own', q'', same, divided'⟩ := (isDivided_cons_iff more).mp second
          obtain ⟨rfl, -, rfl⟩ :=
            own.append_inj own' (Or.inr ⟨rfl, rfl⟩) (Or.inr ⟨rfl, rfl⟩) same
          obtain ⟨rfl, rfl⟩ := ih divided divided'
          exact ⟨rfl, rfl⟩

theorem prepend_alternate (side : Bool) (s : Script) (segments : List Script) (rest : Script) :
    prepend side s ⟨alternate (!side) segments, alternate side segments, rest⟩ =
      ⟨alternate side (s :: segments), alternate (!side) (s :: segments), rest⟩ := by
  cases side with
  | false =>
    rw [prepend_false]
    rfl
  | true =>
    rw [prepend_true]
    rfl

/-- The segments are dealt out to the two branches in turn. -/
theorem IsDivided.split? (divided : IsDivided q segments rest) (side : Bool) :
    split? 0 side q = some ⟨alternate side segments, alternate (!side) segments, rest⟩ := by
  induction segments generalizing q side with
  | nil => exact absurd rfl divided.nonempty
  | cons s segments ih =>
    by_cases more : segments = []
    · subst more
      obtain ⟨own, rfl⟩ := isDivided_singleton_iff.mp divided
      rw [own.split?_append nofun, split?_zero_cons_closing rfl]
      exact congrArg some (prepend_alternate side s [] rest)
    · obtain ⟨own, q', rfl, others⟩ := (isDivided_cons_iff more).mp divided
      rw [own.split?_append nofun, split?_zero_cons_alternative rfl, ih others, Bool.not_not]
      exact congrArg some (prepend_alternate side s segments rest)

end Script

open Script

theorem Branches.ofBlock?_eq_some_iff {q : Script} {b : Branches} :
    ofBlock? q = some b ↔ ∃ segments, IsDivided q segments b.rest ∧
      b.first = alternate true segments ∧ b.second = alternate false segments := by
  constructor
  · intro cut
    obtain ⟨segments, rest, divided⟩ := exists_isDivided (Option.isSome_of_eq_some cut)
    have same := (divided.split? true).symm.trans cut
    cases same
    exact ⟨segments, divided, rfl, rfl⟩
  · rintro ⟨segments, divided, first, second⟩
    have cut := divided.split? true
    rw [ofBlock?, cut, ← first, Bool.not_true, ← second]

/-- Commands are cut exactly if they are balanced segments with alternatives between them, a closing
and a rest. The segments and the rest are determined by the commands; the first branch is made of
every other segment from the first one on, the second branch of the others, and the rest is left. A
conditional goes on with the branch that its condition chooses, and fails as unbalanced if the
commands that follow it are not of this form. -/
theorem Branches.ofBlock?_segments (q : Script) :
    (∀ b : Branches, ofBlock? q = some b ↔ ∃ segments, IsDivided q segments b.rest ∧
      b.first = alternate true segments ∧ b.second = alternate false segments) ∧
    (∀ (segments others : List Script) (rest rest' : Script),
      IsDivided q segments rest → IsDivided q others rest' → segments = others ∧ rest = rest') ∧
    ∀ (negated : Bool) (condition : Bytes) (stack alt : Stack) (n : Nat),
      (∀ (segments : List Script) (rest : Script), IsDivided q segments rest →
        chooseBranch negated ⟨q, condition :: stack, alt, n⟩ =
          .ok ⟨alternate (Number.truthy condition != negated) segments ++ rest, stack, alt, n⟩) ∧
      (chooseBranch negated ⟨q, condition :: stack, alt, n⟩ = .error .unbalancedConditional ↔
        ¬∃ segments rest, IsDivided q segments rest) := by
  refine ⟨fun b => ofBlock?_eq_some_iff, fun segments others rest rest' => IsDivided.unique, ?_⟩
  intro negated condition stack alt n
  have chosen (segments : List Script) (rest : Script) (divided : IsDivided q segments rest) :
      chooseBranch negated ⟨q, condition :: stack, alt, n⟩ =
        .ok ⟨alternate (Number.truthy condition != negated) segments ++ rest, stack, alt, n⟩ := by
    have cut : ofBlock? q = some ⟨alternate true segments, alternate false segments, rest⟩ :=
      divided.split? true
    simp only [chooseBranch, cut, choose]
    cases Number.truthy condition != negated <;> rfl
  refine ⟨chosen, ?_⟩
  constructor
  · rintro failed ⟨segments, rest, divided⟩
    rw [chosen segments rest divided] at failed
    cases failed
  · intro undivided
    have uncut : ofBlock? q = none := by
      cases cut : ofBlock? q with
      | none => rfl
      | some b =>
        obtain ⟨segments, divided, -⟩ := ofBlock?_eq_some_iff.mp cut
        exact absurd ⟨segments, b.rest, divided⟩ undivided
    simp only [chooseBranch, uncut]

section Example

def nestedBlock : Script :=
  [.op Opcode.opIf, .op 0x51, .op Opcode.opElse, .op 0x52, .op Opcode.opEndIf]

theorem nestedBlock_balanced : nestedBlock.Balanced false :=
  .block rfl (.plain rfl (.alternative (.plain rfl .nil))) .nil

/-- An inner block, three alternatives, two of them side by side, and a closing after that of the
whole. -/
def threefoldBlock : Script :=
  nestedBlock ++ [.op Opcode.opElse, .op 0x53, .op Opcode.opElse, .op Opcode.opElse, .op 0x54,
    .op Opcode.opEndIf, .op Opcode.opEndIf]

/-- The block is cut after its own closing and in one way only, and without a closing a block is not
cut. -/
theorem Branches.ofBlock?_segments_nested :
    IsDivided threefoldBlock [nestedBlock, [.op 0x53], [], [.op 0x54]] [.op Opcode.opEndIf] ∧
    ofBlock? threefoldBlock =
      some ⟨nestedBlock, [.op 0x53, .op 0x54], [.op Opcode.opEndIf]⟩ ∧
    (∀ segments rest, IsDivided threefoldBlock segments rest →
      segments = [nestedBlock, [.op 0x53], [], [.op 0x54]] ∧ rest = [.op Opcode.opEndIf]) ∧
    chooseBranch true ⟨threefoldBlock, [[0x01]], [], 0⟩ =
      .ok ⟨[.op 0x53, .op 0x54, .op Opcode.opEndIf], [], [], 0⟩ ∧
    (∀ segments rest, ¬IsDivided (nestedBlock ++ [.op Opcode.opElse, .op 0x53]) segments rest) ∧
    chooseBranch false ⟨nestedBlock ++ [.op Opcode.opElse, .op 0x53], [[0x01]], [], 0⟩ =
      .error .unbalancedConditional := by
  obtain ⟨cuts, unique, chooses⟩ := Branches.ofBlock?_segments threefoldBlock
  obtain ⟨-, -, fails⟩ := Branches.ofBlock?_segments (nestedBlock ++ [.op Opcode.opElse, .op 0x53])
  have divided : IsDivided threefoldBlock [nestedBlock, [.op 0x53], [], [.op 0x54]]
      [.op Opcode.opEndIf] := by
    refine ⟨List.cons_ne_nil _ _, ?_, rfl⟩
    intro s member
    simp only [List.mem_cons, List.not_mem_nil, or_false] at member
    rcases member with rfl | rfl | rfl | rfl
    · exact nestedBlock_balanced
    · exact .plain rfl .nil
    · exact .nil
    · exact .plain rfl .nil
  have failed : chooseBranch false ⟨nestedBlock ++ [.op Opcode.opElse, .op 0x53], [[0x01]], [], 0⟩ =
      .error .unbalancedConditional := rfl
  refine ⟨divided, (cuts _).mpr ⟨_, divided, rfl, rfl⟩,
    fun segments rest other => unique _ _ _ _ other divided,
    (chooses true [0x01] [] [] 0).1 _ _ divided, fun segments rest other => ?_, failed⟩
  exact (fails false [0x01] [] [] 0).2.mp failed ⟨segments, rest, other⟩

end Example

end CoinScript
