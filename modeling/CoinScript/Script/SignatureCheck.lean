import CoinScript.Script.Stack
import CoinScript.Script.Trace

/-!
# Signature checks on the stack

A single check takes a public key from the top and a signature below it. A
multiple check takes, from the top, a count and that many keys, a count and
that many signatures, and one item more, which has no use. Every key and every
signature has to decode. The signatures are then matched with the keys in
order: each takes the first key left over that it verifies against, and a key
that has been passed does not come back.

The last byte of a signature item is not part of the signature. It tells which
parts of a transaction were signed, and the number signed comes from outside.
-/

namespace CoinScript

namespace SignatureCheck

abbrev Check := Traced (Fault FailureCode)

def readKey (item : Bytes) : Check Point :=
  match Sec.decode item with
  | .ok p => pure p
  | .error e => ⟨[.keyRejected e], .error (.error .badEncoding)⟩

def readSignature (item : Bytes) : Check Signature :=
  if item = [] then Traced.fail (.error .badEncoding)
  else match Der.decode item.dropLast with
    | .ok sig => pure sig
    | .error e => ⟨[.signatureRejected e], .error (.error .badEncoding)⟩

def accepts (z : Nat) (p : Point) (sig : Signature) : Check Bool :=
  match p.verify sig z with
  | .ok verdict => ⟨verdict.events, .ok verdict.isAccepted⟩
  | .error m => Traced.fail (.misuse m)

def single (z : Nat) : Stack → Check Stack
  | key :: sig :: rest => do
    let p ← readKey key
    let sig ← readSignature sig
    let accepted ← accepts z p sig
    return Number.ofBool accepted :: rest
  | _ => Traced.fail (.error .stackUnderflow)

/-- A count of at most `limit` on top and that many items below it, deepest first. -/
def takeCounted (limit : Nat) (s : Stack) : Except FailureCode (List Bytes × Stack) := do
  let (count, rest) ← s.popNumber
  if count < 0 ∨ (limit : Int) < count then throw .keyCount
  if (rest.length : Int) < count then throw .stackUnderflow
  return ((rest.take count.toNat).reverse, rest.drop count.toNat)

/-- The keys after the first one that the signature verifies against. -/
def keysAfter? (z : Nat) (sig : Signature) : List Point → Check (Option (List Point))
  | [] => pure none
  | p :: keys => do
    if ← accepts z p sig then return some keys
    keysAfter? z sig keys

/-- Whether the signatures verify in order, each against a key of its own. -/
def matchInOrder (z : Nat) : List Signature → List Point → Check Bool
  | [], _ => pure true
  | sig :: sigs, keys => do
    match ← keysAfter? z sig keys with
    | none => return false
    | some keys => matchInOrder z sigs keys

/-- The greatest number of keys in a multiple check. -/
def maxKeys : Nat := 20

def multiple (z : Nat) (s : Stack) : Check Stack := do
  let (keys, s) ← takeCounted maxKeys s
  let (sigs, s) ← takeCounted keys.length s
  match s with
  | [] => Traced.fail (.error .stackUnderflow)
  | _ :: rest =>
    let keys ← keys.mapM readKey
    let sigs ← sigs.mapM readSignature
    let matched ← matchInOrder z sigs keys
    return Number.ofBool matched :: rest

end SignatureCheck

def SignatureInstruction.run (z : Nat) (s : Stack) :
    SignatureInstruction → SignatureCheck.Check Stack
  | .single demand => do
    let s ← SignatureCheck.single z s
    if demand then s.verify else return s
  | .multiple demand => do
    let s ← SignatureCheck.multiple z s
    if demand then s.verify else return s

end CoinScript
