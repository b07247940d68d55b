import CoinScript.Settings.Environment

/-!
# Settings from a document

A document is a tree of values as configuration files have them. A group of
settings is a record, in which names that mean nothing are ignored, or a list
of its settings in their fixed order. Settings left out keep their defaults; a
setting that is there has to have the right form, or the document is refused.
-/

namespace CoinScript

inductive Document where
  | null
  | bool (b : Bool)
  | integer (n : Int)
  /-- A number that is not written as an integer. -/
  | fraction
  | text (s : String)
  | list (items : List Document)
  | record (fields : List (String × Document))
deriving Inhabited

namespace Document

/-- Whether a document can stand for a group of `count` settings. -/
def isGroup (count : Nat) : Document → Bool
  | record _ => true
  | list items => items.length ≤ count
  | _ => false

/-- The setting with a name and a place in its group, if the group has it. -/
def member? (name : String) (place : Nat) : Document → Option Document
  | record fields => fields.lookup name
  | list items => items[place]?
  | _ => none

/-- Reads a setting that may be missing. -/
def readOr {α : Type} (group : Document) (name : String) (place : Nat)
    (read : Document → Option α) (default : α) : Option α :=
  match group.member? name place with
  | none => some default
  | some d => read d

def size? : Document → Option Nat
  | integer n => if 0 ≤ n ∧ n < (sizeBound : Int) then some n.toNat else none
  | _ => none

def bool? : Document → Option Bool
  | bool b => some b
  | _ => none

/-- A nonce policy by its exact name, alone or as the only name of a record of nothing. -/
def noncePolicy? : Document → Option NoncePolicy
  | text "random" => some .random
  | text "deterministic" => some .deterministic
  | record [("random", null)] => some .random
  | record [("deterministic", null)] => some .deterministic
  | _ => none

def scriptSettings? (d : Document) : Option ScriptSettings := do
  guard (d.isGroup 5)
  let usual : ScriptSettings := {}
  let maxStackSize ← d.readOr "max_stack_size" 0 size? usual.maxStackSize
  let maxOps ← d.readOr "max_ops" 1 size? usual.maxOps
  let maxScriptSize ← d.readOr "max_script_size" 2 size? usual.maxScriptSize
  let redeemScripts ← d.readOr "enable_p2sh" 3 bool? usual.redeemScripts
  let verbose ← d.readOr "verbose_logging" 4 bool? usual.verbose
  return { maxStackSize, maxOps, maxScriptSize, redeemScripts, verbose }

def signingSettings? (d : Document) : Option SigningSettings := do
  guard (d.isGroup 1)
  let nonce ← d.readOr "nonce" 0 noncePolicy? .random
  return { nonce }

def settings? (d : Document) : Option Settings := do
  guard (d.isGroup 2)
  let script ← d.readOr "script" 0 scriptSettings? {}
  let signing ← d.readOr "signing" 1 signingSettings? {}
  return { script, signing }

end Document

end CoinScript
