import CoinScript.Script.Command

/-!
# Conditional blocks

When a conditional opcode has been taken from the pending commands, they begin
inside its block. The block is cut at the matching end: the commands before it
are dealt out to two branches, with a change of branch at every alternative of
the block itself, and the commands after it remain. Blocks inside the block
are copied whole.
-/

namespace CoinScript

/-- The commands that give a script its block structure. -/
inductive Bracket where
  | opening
  | alternative
  | closing
deriving DecidableEq, Repr

def Command.bracket? (c : Command) : Option Bracket :=
  if c = .op Opcode.opIf ∨ c = .op Opcode.opNotIf then some .opening
  else if c = .op Opcode.opElse then some .alternative
  else if c = .op Opcode.opEndIf then some .closing
  else none

/-- The two branches of a block and what follows its end. -/
structure Branches where
  first : Script
  second : Script
  rest : Script
deriving DecidableEq, Repr

namespace Branches

/-- Adds a command at the front of one of the branches. -/
def cons (inFirst : Bool) (c : Command) (b : Branches) : Branches :=
  if inFirst then { b with first := c :: b.first } else { b with second := c :: b.second }

/-- Deals out the commands up to the end of the block; `depth` counts the blocks inside
it that are open. -/
def split? (depth : Nat) (inFirst : Bool) : Script → Option Branches
  | [] => none
  | c :: rest =>
    match c.bracket?, depth with
    | some .alternative, 0 => split? 0 (!inFirst) rest
    | some .closing, 0 => some ⟨[], [], rest⟩
    | some .opening, depth => (split? (depth + 1) inFirst rest).map (cons inFirst c)
    | some .closing, depth + 1 => (split? depth inFirst rest).map (cons inFirst c)
    | _, depth => (split? depth inFirst rest).map (cons inFirst c)

/-- The branches of the block that the commands begin inside of. -/
def ofBlock? (commands : Script) : Option Branches :=
  split? 0 true commands

/-- The pending commands once a branch has been chosen. -/
def choose (b : Branches) (condition : Bool) : Script :=
  (if condition then b.first else b.second) ++ b.rest

def weight (b : Branches) : Nat :=
  b.first.weight + b.second.weight + b.rest.weight

theorem weight_cons (inFirst : Bool) (c : Command) (b : Branches) :
    (cons inFirst c b).weight = c.weight + b.weight := by
  cases inFirst <;> simp [cons, weight] <;> omega

/-- The branches and the rest come from different commands. -/
theorem weight_of_split? {depth : Nat} {inFirst : Bool} {commands : Script} {b : Branches}
    (h : split? depth inFirst commands = some b) : b.weight ≤ commands.weight := by
  induction commands generalizing depth inFirst b with
  | nil => cases h
  | cons c rest ih =>
    have copied : ∀ {d : Nat}, (split? d inFirst rest).map (cons inFirst c) = some b →
        b.weight ≤ Script.weight (c :: rest) := by
      intro d found
      obtain ⟨b', inner, rfl⟩ := Option.map_eq_some_iff.mp found
      have := ih inner
      simp only [weight_cons, Script.weight_cons]
      omega
    unfold split? at h
    split at h
    · have := ih h
      simp only [Script.weight_cons]
      omega
    · cases h
      simp [weight]
    · exact copied h
    · exact copied h
    · exact copied h

theorem weight_choose (b : Branches) (condition : Bool) :
    (b.choose condition).weight ≤ b.weight := by
  cases condition <;> simp [choose, weight]

end Branches

end CoinScript
