import CoinScript.Script.Branches

/-!
# Cutting a block

The cut of a block depends on the commands up to its end alone. Dealing the
branches out the other way round exchanges them, what follows the end may be
replaced, and a block within another is copied whole into the branch that it
lies in.
-/

namespace CoinScript.Branches

/-! ## One command at a time -/

section Equations

variable {c : Command} {depth : Nat} {inFirst : Bool} {rest : Script}

theorem split?_nil : split? depth inFirst [] = none := by
  rw [split?]

theorem split?_cons_plain (plain : c.bracket? = none) :
    split? depth inFirst (c :: rest) = (split? depth inFirst rest).map (cons inFirst c) := by
  cases depth <;> simp only [split?, plain]

theorem split?_cons_opening (opening : c.bracket? = some .opening) :
    split? depth inFirst (c :: rest) = (split? (depth + 1) inFirst rest).map (cons inFirst c) := by
  cases depth <;> simp only [split?, opening]

theorem split?_zero_cons_alternative (alternative : c.bracket? = some .alternative) :
    split? 0 inFirst (c :: rest) = split? 0 (!inFirst) rest := by
  simp only [split?, alternative]

theorem split?_succ_cons_alternative (alternative : c.bracket? = some .alternative) :
    split? (depth + 1) inFirst (c :: rest) =
      (split? (depth + 1) inFirst rest).map (cons inFirst c) := by
  simp only [split?, alternative]

theorem split?_zero_cons_closing (closing : c.bracket? = some .closing) :
    split? 0 inFirst (c :: rest) = some ⟨[], [], rest⟩ := by
  simp only [split?, closing]

theorem split?_succ_cons_closing (closing : c.bracket? = some .closing) :
    split? (depth + 1) inFirst (c :: rest) = (split? depth inFirst rest).map (cons inFirst c) := by
  simp only [split?, closing]

end Equations

/-- The command is copied, with `next` blocks open after it instead of `depth`. -/
def Copies (c : Command) (depth next : Nat) : Prop :=
  ∀ inFirst rest, split? depth inFirst (c :: rest) = (split? next inFirst rest).map (cons inFirst c)

/-- A command at `depth` changes the branch of the block, ends the block, or is copied. A command
that is copied is also copied with further blocks open around it. -/
theorem split?_cons_cases (c : Command) (depth : Nat) :
    (depth = 0 ∧ c.bracket? = some .alternative) ∨ (depth = 0 ∧ c.bracket? = some .closing) ∨
      ∃ next, Copies c depth next ∧ ∀ outer, Copies c (depth + (outer + 1)) (next + (outer + 1)) := by
  rcases bracket : c.bracket? with _ | _ | _ | _
  · exact Or.inr (Or.inr ⟨depth, fun _ _ => split?_cons_plain bracket,
      fun _ _ _ => split?_cons_plain bracket⟩)
  · refine Or.inr (Or.inr ⟨depth + 1, fun _ _ => split?_cons_opening bracket, fun outer _ _ => ?_⟩)
    rw [split?_cons_opening bracket, Nat.add_right_comm]
  · cases depth with
    | zero => exact Or.inl ⟨rfl, rfl⟩
    | succ depth =>
      exact Or.inr (Or.inr ⟨depth + 1, fun _ _ => split?_succ_cons_alternative bracket,
        fun _ _ _ => split?_succ_cons_alternative bracket⟩)
  · cases depth with
    | zero => exact Or.inr (Or.inl ⟨rfl, rfl⟩)
    | succ depth =>
      refine Or.inr (Or.inr ⟨depth, fun _ _ => split?_succ_cons_closing bracket,
        fun outer _ _ => ?_⟩)
      rw [Nat.add_right_comm, split?_succ_cons_closing bracket]

/-! ## Exchanged branches -/

def swap (b : Branches) : Branches := ⟨b.second, b.first, b.rest⟩

theorem split?_not (depth : Nat) (inFirst : Bool) (commands : Script) :
    split? depth (!inFirst) commands = (split? depth inFirst commands).map swap := by
  induction commands generalizing depth inFirst with
  | nil => rw [split?_nil, split?_nil, Option.map_none]
  | cons c rest ih =>
    rcases split?_cons_cases c depth with ⟨rfl, alternative⟩ | ⟨rfl, closing⟩ | ⟨next, copied, outside⟩
    · rw [split?_zero_cons_alternative alternative, split?_zero_cons_alternative alternative, ih]
    · rw [split?_zero_cons_closing closing, split?_zero_cons_closing closing]
      rfl
    · have swap_cons : cons (!inFirst) c ∘ swap = swap ∘ cons inFirst c := by
        funext b
        cases inFirst <;> rfl
      rw [copied, copied, ih, Option.map_map, Option.map_map, swap_cons]

/-! ## What follows the block -/

section Suffix

variable {l : Script}

theorem split?_plain (plain : ∀ c ∈ l, c.bracket? = none) (depth : Nat) (inFirst : Bool) :
    split? depth inFirst l = none := by
  induction l with
  | nil => exact split?_nil
  | cons c rest ih =>
    rw [split?_cons_plain (plain c List.mem_cons_self),
      ih fun c h => plain c (List.mem_cons_of_mem _ h), Option.map_none]

/-- If the commands end no block that is open before them, a block in front of them ends before
them. -/
theorem split?_append (endless : ∀ depth inFirst, split? depth inFirst l = none) (depth : Nat)
    (inFirst : Bool) (commands : Script) :
    split? depth inFirst (commands ++ l) =
      (split? depth inFirst commands).map fun b => { b with rest := b.rest ++ l } := by
  induction commands generalizing depth inFirst with
  | nil => exact endless depth inFirst
  | cons c rest ih =>
    rw [List.cons_append]
    rcases split?_cons_cases c depth with ⟨rfl, alternative⟩ | ⟨rfl, closing⟩ | ⟨next, copied, outside⟩
    · rw [split?_zero_cons_alternative alternative, split?_zero_cons_alternative alternative, ih]
    · rw [split?_zero_cons_closing closing, split?_zero_cons_closing closing, Option.map_some]
    · have kept : cons inFirst c ∘ (fun b => { b with rest := b.rest ++ l }) =
          (fun b : Branches => { b with rest := b.rest ++ l }) ∘ cons inFirst c := by
        funext b
        cases inFirst <;> rfl
      rw [copied, copied, ih, Option.map_map, Option.map_map, kept]

end Suffix

/-! ## Blocks in blocks -/

/-- Adds commands at the front of one of the branches. -/
def prepend (inFirst : Bool) (commands : Script) (b : Branches) : Branches :=
  commands.foldr (cons inFirst) b

theorem prepend_true (commands : Script) (b : Branches) :
    prepend true commands b = { b with first := commands ++ b.first } := by
  induction commands with
  | nil => rfl
  | cons c rest ih =>
    change cons true c (prepend true rest b) = _
    rw [ih]
    rfl

theorem prepend_false (commands : Script) (b : Branches) :
    prepend false commands b = { b with second := commands ++ b.second } := by
  induction commands with
  | nil => rfl
  | cons c rest ih =>
    change cons false c (prepend false rest b) = _
    rw [ih]
    rfl

/-- The commands of a block are cut in the same way whatever follows them, and an outer block
copies them whole. -/
theorem exists_body {depth : Nat} {inFirst : Bool} {commands : Script} {b : Branches}
    (cut : split? depth inFirst commands = some b) :
    ∃ body, commands = body ++ b.rest ∧
      (∀ rest, split? depth inFirst (body ++ rest) = some { b with rest := rest }) ∧
      ∀ outer side rest, split? (depth + (outer + 1)) side (body ++ rest) =
        (split? outer side rest).map (prepend side body) := by
  induction commands generalizing depth inFirst b with
  | nil =>
    rw [split?_nil] at cut
    cases cut
  | cons c tail ih =>
    rcases split?_cons_cases c depth with ⟨rfl, alternative⟩ | ⟨rfl, closing⟩ | ⟨next, copied, outside⟩
    · rw [split?_zero_cons_alternative alternative] at cut
      obtain ⟨body, rfl, same, whole⟩ := ih cut
      refine ⟨c :: body, rfl, fun rest => ?_, fun outer side rest => ?_⟩
      · rw [List.cons_append, split?_zero_cons_alternative alternative, same]
      · rw [List.cons_append, Nat.zero_add, split?_succ_cons_alternative alternative,
          ← Nat.zero_add (outer + 1), whole, Option.map_map]
        rfl
    · rw [split?_zero_cons_closing closing] at cut
      cases cut
      refine ⟨[c], rfl, fun rest => split?_zero_cons_closing closing, fun outer side rest => ?_⟩
      rw [List.cons_append, Nat.zero_add, split?_succ_cons_closing closing]
      rfl
    · rw [copied] at cut
      obtain ⟨b', cut', rfl⟩ := Option.map_eq_some_iff.mp cut
      obtain ⟨body, split, same, whole⟩ := ih cut'
      refine ⟨c :: body, ?_, fun rest => ?_, fun outer side rest => ?_⟩
      · rw [List.cons_append, split]
        cases inFirst <;> rfl
      · rw [List.cons_append, copied, same]
        cases inFirst <;> rfl
      · rw [List.cons_append, outside, whole, Option.map_map]
        rfl

/-- A block without an end leaves the outer block without one. -/
theorem split?_outer_none {depth : Nat} {inFirst : Bool} {commands : Script}
    (endless : split? depth inFirst commands = none) (outer : Nat) (side : Bool) :
    split? (depth + (outer + 1)) side commands = none := by
  induction commands generalizing depth inFirst with
  | nil => exact split?_nil
  | cons c rest ih =>
    rcases split?_cons_cases c depth with ⟨rfl, alternative⟩ | ⟨rfl, closing⟩ | ⟨next, copied, outside⟩
    · rw [split?_zero_cons_alternative alternative] at endless
      rw [Nat.zero_add, split?_succ_cons_alternative alternative, ← Nat.zero_add (outer + 1),
        ih endless, Option.map_none]
    · rw [split?_zero_cons_closing closing] at endless
      cases endless
    · rw [copied, Option.map_eq_none_iff] at endless
      rw [outside, ih endless, Option.map_none]

end CoinScript.Branches
