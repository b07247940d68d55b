import CoinScript.Settings.Basic

/-!
# Settings from texts and from the environment

How a single setting is read from text. A size is a decimal number below
`2^64` with an optional plus sign. A truth value is `true` or `false`. The
name of a nonce policy may be surrounded by blanks and its letters `A` to `Z`
may be in either case; the blanks are the characters of the Unicode property
White_Space.

Every setting can be given by a variable of its own. A variable that is not
set, or whose text cannot be read, leaves the default.
-/

namespace CoinScript

/-! ## Texts -/

/-- The characters of the Unicode property White_Space. -/
def isBlank (c : Char) : Bool :=
  let n := c.toNat
  (0x09 ≤ n && n ≤ 0x0d) || n == 0x20 || n == 0x85 || n == 0xa0 || n == 0x1680 ||
    (0x2000 ≤ n && n ≤ 0x200a) || n == 0x2028 || n == 0x2029 || n == 0x202f || n == 0x205f ||
    n == 0x3000

/-- Removes the blanks on both sides. -/
def trimBlanks (cs : List Char) : List Char :=
  ((cs.dropWhile isBlank).reverse.dropWhile isBlank).reverse

/-- The sizes are the numbers below this bound, which is `2^64`. -/
def sizeBound : Nat := 0x10000000000000000

/-- The value of decimal digits. -/
def decimalValue (digits : List Char) : Nat :=
  digits.foldl (fun n c => 10 * n + (c.toNat - '0'.toNat)) 0

def sizeOfText? (text : String) : Option Nat :=
  let digits := match text.toList with
    | '+' :: rest => rest
    | cs => cs
  if digits ≠ [] ∧ digits.all Char.isDigit ∧ decimalValue digits < sizeBound then
    some (decimalValue digits)
  else none

def boolOfText? (text : String) : Option Bool :=
  if text = "true" then some true else if text = "false" then some false else none

def NoncePolicy.ofText (text : String) : Except SettingsError NoncePolicy :=
  let name := String.ofList ((trimBlanks text.toList).map Char.toLower)
  if name = "random" then .ok .random
  else if name = "deterministic" ∨ name = "rfc6979" then .ok .deterministic
  else .error (.unknownNoncePolicy name)

/-! ## Variables -/

/-- The setting that a variable gives, or its default. -/
def settingOr {α : Type} (lookup : String → Option String) (name : String)
    (read : String → Option α) (default : α) : α :=
  ((lookup name).bind read).getD default

def Settings.ofEnvironment (lookup : String → Option String) : Settings :=
  let usual : Settings := {}
  { script :=
      { maxStackSize := settingOr lookup "SCRIPT_MAX_STACK_SIZE" sizeOfText? usual.script.maxStackSize
        maxOps := settingOr lookup "SCRIPT_MAX_OPS" sizeOfText? usual.script.maxOps
        maxScriptSize :=
          settingOr lookup "SCRIPT_MAX_SCRIPT_SIZE" sizeOfText? usual.script.maxScriptSize
        redeemScripts :=
          settingOr lookup "SCRIPT_ENABLE_P2SH" boolOfText? usual.script.redeemScripts
        verbose := settingOr lookup "SCRIPT_VERBOSE_LOGGING" boolOfText? usual.script.verbose }
    signing :=
      { nonce :=
          settingOr lookup "SIGNING_NONCE" (fun text => (NoncePolicy.ofText text).toOption)
            usual.signing.nonce } }

end CoinScript
