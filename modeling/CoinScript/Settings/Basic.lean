import CoinScript.Ecdsa.Nonce

/-!
# Settings

The limits and switches of script evaluation, and the choice of nonces. All
settings have defaults. A process installs its settings at most once; until
then every use reads them afresh from wherever they come.
-/

namespace CoinScript

structure ScriptSettings where
  /-- The greatest number of items on both stacks together. -/
  maxStackSize : Nat := 1000
  /-- The greatest number of opcodes, constants aside, in one evaluation. -/
  maxOps : Nat := 201
  /-- The greatest length of a script in raw form. -/
  maxScriptSize : Nat := 10000
  /-- Whether a payment to the hash of a script is recognised. -/
  redeemScripts : Bool := true
  /-- Whether every command is recorded. -/
  verbose : Bool := false
deriving DecidableEq, Repr

structure SigningSettings where
  nonce : NoncePolicy := .random
deriving DecidableEq, Repr

structure Settings where
  script : ScriptSettings := {}
  signing : SigningSettings := {}
deriving DecidableEq, Repr

inductive SettingsError where
  | unknownNoncePolicy (text : String)
  | alreadyInstalled
deriving DecidableEq, Repr

def SettingsError.message : SettingsError → String
  | unknownNoncePolicy text => s!"Configuration error: unknown nonce policy '{text}'"
  | alreadyInstalled => "Configuration error: core config already initialized"

namespace Settings

/-- Installs settings where none are installed yet. -/
def install (installed : Option Settings) (s : Settings) : Except SettingsError (Option Settings) :=
  match installed with
  | none => .ok (some s)
  | some _ => .error .alreadyInstalled

/-- The settings in force. -/
def current (installed : Option Settings) (fallback : Settings) : Settings :=
  installed.getD fallback

end Settings

end CoinScript
