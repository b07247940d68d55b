import CoinScript.Ecdsa.Verification
import CoinScript.Encoding.Der
import CoinScript.Encoding.Sec
import CoinScript.Script.Failure
import CoinScript.Script.Wire

/-!
# Traced computations

An evaluation records events on its way, and keeps those recorded before a
failure. A traced computation is therefore a list of events together with a
result or an error. The events never influence the result.
-/

namespace CoinScript

inductive Event where
  | executing (name : String) (items : Nat)
  | pushing (length : Nat)
  | failed (name : String) (code : FailureCode)
  | redeemHashMismatch (expected : Bytes)
  | redeemRejected (e : ParseError)
  | redeemAccepted (script : Script)
  | signatureRejected (e : DerError)
  | keyRejected (e : SecError)
  | verificationRejected (e : CurveError)
deriving DecidableEq, Repr

namespace Event

/-- The level at which an event is reported. -/
def level : Event → String
  | executing _ _ => "TRACE"
  | pushing _ => "TRACE"
  | verificationRejected _ => "TRACE"
  | _ => "DEBUG"

def text : Event → String
  | executing name items => s!"executing {name} with {items} stack items"
  | pushing length => s!"pushing {length} bytes"
  | failed name code => s!"script failed at {name}: {code.text}"
  | redeemHashMismatch expected =>
    s!"P2SH redeem script hash does not match {hexOfBytes expected}"
  | redeemRejected e => s!"P2SH redeem script rejected: {e.message}"
  | redeemAccepted script => s!"P2SH redeem script accepted: {script.text}"
  | signatureRejected e => s!"signature decode failed: {e.message}"
  | keyRejected e => s!"public key decode failed: {e.message}"
  | verificationRejected e => s!"signature verification rejected public key: {e.message}"

/-- The level and the text of an event. -/
def line (e : Event) : String := s!"{e.level} {e.text}"

end Event

structure Traced (ε α : Type) where
  events : List Event
  result : Except ε α

namespace Traced

variable {ε α β : Type}

def pure (a : α) : Traced ε α := ⟨[], .ok a⟩

def bind (t : Traced ε α) (f : α → Traced ε β) : Traced ε β :=
  match t.result with
  | .error e => ⟨t.events, .error e⟩
  | .ok a =>
    let next := f a
    ⟨t.events ++ next.events, next.result⟩

instance : Monad (Traced ε) where
  pure := Traced.pure
  bind := Traced.bind

def emit (e : Event) : Traced ε Unit := ⟨[e], .ok ()⟩

def fail (e : ε) : Traced ε α := ⟨[], .error e⟩

def ofExcept (x : Except ε α) : Traced ε α := ⟨[], x⟩

/-- Changes the error and, if there is one, records an event for it. -/
def mapError {δ : Type} (t : Traced ε α) (f : ε → List Event × δ) : Traced δ α :=
  match t.result with
  | .ok a => ⟨t.events, .ok a⟩
  | .error e => ⟨t.events ++ (f e).1, .error (f e).2⟩

instance : MonadLift (Except ε) (Traced (Fault ε)) where
  monadLift x := ofExcept (x.mapError .error)

@[simp] theorem result_pure (a : α) : (Pure.pure a : Traced ε α).result = .ok a := rfl

@[simp] theorem result_emit (e : Event) : (emit e : Traced ε Unit).result = .ok () := rfl

@[simp] theorem result_fail (e : ε) : (fail e : Traced ε α).result = .error e := rfl

@[simp] theorem result_ofExcept (x : Except ε α) : (ofExcept x).result = x := rfl

/-- Results are sequenced as if there were no events. -/
@[simp] theorem result_bind (t : Traced ε α) (f : α → Traced ε β) :
    (t >>= f).result = t.result >>= fun a => (f a).result := by
  cases t with
  | mk events result => cases result <;> rfl

theorem result_bind_eq_ok_iff {t : Traced ε α} {f : α → Traced ε β} {b : β} :
    (t >>= f).result = .ok b ↔ ∃ a, t.result = .ok a ∧ (f a).result = .ok b := by
  rw [result_bind]
  cases t.result with
  | error e => exact ⟨fun h => (nomatch h), fun ⟨_, h, _⟩ => (nomatch h)⟩
  | ok a => exact ⟨fun h => ⟨a, rfl, h⟩, fun ⟨_, h, g⟩ => by cases h; exact g⟩

theorem result_lift_eq_ok_iff {x : Except ε α} {a : α} :
    (liftM x : Traced (Fault ε) α).result = .ok a ↔ x = .ok a := by
  cases x with
  | error e => exact ⟨fun h => (nomatch h), fun h => (nomatch h)⟩
  | ok b => exact ⟨fun h => by cases h; rfl, fun h => by cases h; rfl⟩

theorem result_mapError {δ : Type} (t : Traced ε α) (f : ε → List Event × δ) :
    (t.mapError f).result = t.result.mapError fun e => (f e).2 := by
  cases t with
  | mk events result => cases result <;> rfl

theorem result_mapError_eq_ok_iff {δ : Type} {t : Traced ε α} {f : ε → List Event × δ} {a : α} :
    (t.mapError f).result = .ok a ↔ t.result = .ok a := by
  cases t with
  | mk events result =>
    cases result with
    | error e => exact ⟨fun h => (nomatch h), fun h => (nomatch h)⟩
    | ok b => exact ⟨fun h => by cases h; rfl, fun h => by cases h; rfl⟩

end Traced

/-- What there is to report about a verdict. -/
def Verdict.events : Verdict → List Event
  | .badKey e => [.verificationRejected e]
  | _ => []

end CoinScript
