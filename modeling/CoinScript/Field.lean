import CoinScript.Bytes

/-!
# Residues that carry their modulus

A field element is a number below its own modulus, so that a toy field and the
coordinate field of a large curve share one type. The modulus is at least two
and need not be prime: the inverse is the power `p - 2` and the square root
the power `(p + 1) / 4` whatever the modulus, and they deserve their names
only over suitable primes.

Not covered: elements over the moduli zero and one. `ofNat` refuses them, and
a zero or a one that is put together over such a modulus without `ofNat` has no
counterpart in the type. What is proved of all elements is proved of the
numbers below a modulus of at least two.

Two kinds of failure are kept apart. An error is an answer to data that is out
of range. Misuse is an operator applied to elements of different fields, or a
quotient by zero, which a caller has to exclude beforehand.
-/

namespace CoinScript

structure FieldElement where
  num : Nat
  modulus : Nat
  two_le : 2 ≤ modulus
  num_lt : num < modulus
deriving DecidableEq, Repr

/-- Why a number is refused as a field element or as a divisor. -/
inductive FieldError where
  | modulusTooSmall (modulus : Nat)
  | outOfRange (num modulus : Nat)
  | differentFields
  | divisionByZero (modulus : Nat)
deriving DecidableEq, Repr

def FieldError.message : FieldError → String
  | modulusTooSmall modulus => s!"Invalid field element: modulus {modulus} is smaller than 2"
  | outOfRange num modulus =>
    s!"Invalid field element: {num} not in field range 0 to {modulus - 1}"
  | differentFields => "Invalid field element: cannot divide two numbers in different fields"
  | divisionByZero modulus => s!"Division by zero in field of order {modulus}"

/-- The operators that demand operands of one field. -/
inductive FieldOperator where
  | add
  | subtract
  | multiply
  | divide
deriving DecidableEq, Repr

def FieldOperator.verb : FieldOperator → String
  | add => "add"
  | subtract => "subtract"
  | multiply => "multiply"
  | divide => "divide"

/-- A mistake of the caller of an operator. -/
inductive Misuse where
  | differentFields (operator : FieldOperator) (left right : Nat)
  | divisionByZero (modulus : Nat)
deriving DecidableEq, Repr

def Misuse.message : Misuse → String
  | differentFields operator left right =>
    s!"cannot {operator.verb} two numbers in different fields ({left} and {right})"
  | divisionByZero modulus => s!"division by the zero element of F_{modulus}"

/-- An operation that uses the operators ends in an error of its own or in misuse of theirs. -/
inductive Fault (ε : Type) where
  | error (e : ε)
  | misuse (m : Misuse)
deriving DecidableEq, Repr

instance {ε : Type} : MonadLift (Except Misuse) (Except (Fault ε)) where
  monadLift := Except.mapError .misuse

/-- The power `b ^ e` modulo `m`, by repeated squaring. -/
def powMod (b e m : Nat) : Nat :=
  if e = 0 then 1 % m
  else
    let root := powMod b (e / 2) m
    let square := root * root % m
    if e % 2 = 1 then square * b % m else square
termination_by e

namespace FieldElement

def ofNat (num modulus : Nat) : Except FieldError FieldElement :=
  if small : modulus < 2 then .error (.modulusTooSmall modulus)
  else if inside : num < modulus then .ok ⟨num, modulus, Nat.le_of_not_lt small, inside⟩
  else .error (.outOfRange num modulus)

/-- The residue of `n` in the field of `a`. -/
def residue (a : FieldElement) (n : Nat) : FieldElement where
  num := n % a.modulus
  modulus := a.modulus
  two_le := a.two_le
  num_lt := Nat.mod_lt _ (Nat.lt_of_lt_of_le Nat.two_pos a.two_le)

def zero (a : FieldElement) : FieldElement := a.residue 0

def one (a : FieldElement) : FieldElement := a.residue 1

def isZero (a : FieldElement) : Bool := a.num == 0

def isEven (a : FieldElement) : Bool := a.num % 2 == 0

/-- Applies an operation to two elements of one field. -/
def combine (operator : FieldOperator) (f : FieldElement → FieldElement → FieldElement)
    (a b : FieldElement) : Except Misuse FieldElement :=
  if a.modulus = b.modulus then .ok (f a b)
  else .error (.differentFields operator a.modulus b.modulus)

def add : FieldElement → FieldElement → Except Misuse FieldElement :=
  combine .add fun a b => a.residue (a.num + b.num)

def sub : FieldElement → FieldElement → Except Misuse FieldElement :=
  combine .subtract fun a b => a.residue (a.num + a.modulus - b.num)

def mul : FieldElement → FieldElement → Except Misuse FieldElement :=
  combine .multiply fun a b => a.residue (a.num * b.num)

def neg (a : FieldElement) : FieldElement :=
  a.residue (a.modulus - a.num)

/-- The power with a natural exponent, taken as it is. -/
def powNat (a : FieldElement) (e : Nat) : FieldElement :=
  a.residue (powMod a.num e a.modulus)

/-- The power with an integer exponent, which is first reduced modulo `p - 1`. -/
def pow (a : FieldElement) (e : Int) : FieldElement :=
  a.powNat (e % ((a.modulus - 1 : Nat) : Int)).toNat

/-- The power `p - 2` of a nonzero element. -/
def inverse (a : FieldElement) : Except FieldError FieldElement :=
  if a.num = 0 then .error (.divisionByZero a.modulus)
  else .ok (a.powNat (a.modulus - 2))

/-- The quotient, as an operator: a divisor that is zero or of another field is misuse. -/
def div (a b : FieldElement) : Except Misuse FieldElement :=
  if a.modulus = b.modulus then
    if b.num = 0 then .error (.divisionByZero a.modulus)
    else .ok (a.residue (a.num * (b.powNat (a.modulus - 2)).num))
  else .error (.differentFields .divide a.modulus b.modulus)

/-- The quotient, for a divisor that comes from outside. -/
def checkedDiv (a b : FieldElement) : Except FieldError FieldElement :=
  if a.modulus = b.modulus then do
    let inverted ← b.inverse
    return a.residue (a.num * inverted.num)
  else .error .differentFields

/-- The power `(p + 1) / 4`, which squares to `a` when `p` is a prime of the form
`4 k + 3` and `a` is a square. -/
def sqrt (a : FieldElement) : FieldElement :=
  a.powNat ((a.modulus + 1) / 4)

/-- The number in hexadecimal. -/
def text (a : FieldElement) : String := hexOfNat a.num

/-- The number and its modulus in decimal. -/
def describe (a : FieldElement) : String := s!"FieldElement_{a.modulus}({a.num})"

end FieldElement

end CoinScript
