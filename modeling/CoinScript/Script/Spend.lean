import CoinScript.Script.Machine

/-!
# Spending an output

An output is spent by an unlocking script that is run before the locking
script of the output, as one script. The two come in their full wire form. A
signature can also be checked alone, from its encoding and that of a key.
-/

namespace CoinScript

inductive SpendError where
  | parse (e : ParseError)
  | script (f : ScriptFailure)
deriving DecidableEq, Repr

def SpendError.message : SpendError → String
  | parse e => e.message
  | script f => f.message

inductive CheckError where
  | key (e : SecError)
  | signature (e : DerError)
deriving DecidableEq, Repr

def CheckError.message : CheckError → String
  | key e => e.message
  | signature e => e.message

/-- Whether the unlocking script, followed by the locking script, succeeds. -/
def verifySpend (settings : ScriptSettings) (unlocking locking : Bytes) (z : Nat) :
    Traced (Fault SpendError) Bool := do
  let parseExact (data : Bytes) : Except SpendError Script :=
    (Script.parseExact settings.maxScriptSize data).mapError .parse
  let unlocking ← parseExact unlocking
  let locking ← parseExact locking
  (Script.evaluate settings z (unlocking ++ locking)).mapError fun
    | .error f => ([], .error (.script f))
    | .misuse m => ([], .misuse m)

/-- Evaluates scripts one after another, each with the number that its signatures sign. -/
def verifyBatch (settings : ScriptSettings) (jobs : List (Script × Nat)) :
    List (Traced (Fault ScriptFailure) Bool) :=
  jobs.map fun (script, z) => script.evaluate settings z

/-- Whether an encoded signature on `z` verifies against an encoded key. -/
def verifyEncoded (key signature : Bytes) (z : Nat) : Traced (Fault CheckError) Bool := do
  let p ← (Sec.decode key).mapError CheckError.key
  let sig ← (Der.decode signature).mapError CheckError.signature
  match p.verify sig z with
  | .ok verdict => ⟨verdict.events, .ok verdict.isAccepted⟩
  | .error m => Traced.fail (.misuse m)

end CoinScript
