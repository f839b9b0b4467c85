import TermReduction.Number.Text

/-!
Why an expression cannot be read, evaluated or reduced, and the message that says so.
-/

namespace TermReduction

-- What a refused operand was required to be, relative to a bound.
inductive Relation
  | greaterThan
  | atLeast
  | differentFrom
deriving DecidableEq

def Relation.text : Relation → String
  | greaterThan   => "greater than"
  | atLeast       => "greater than or equal to"
  | differentFrom => "different from"

-- A refused operand: a number, or a decimal in the representation that was given.
inductive Operand
  | number (v : Number)
  | decimal (x : Decimal)
deriving DecidableEq

def Operand.text : Operand → String
  | number v  => v.text
  | decimal x => x.scientific

inductive Error
  -- A token that cannot stand where it does.
  | malformed (token : String)
  -- The tokens end before all brackets are closed.
  | unbalanced
  | unknownOperator (symbol : String)
  | arity (actual : Int) (minimum : Nat) (maximum : Option Nat)
  -- A token that is neither a number nor an identifier.
  | invalidIdentifier (token : String)
  | undefinedIdentifier (name : String)
  -- The name of a constant, used as a variable.
  | reservedIdentifier (name : String)
  -- An operand outside the domain of an operation.
  | domain (operand : Operand) (relation : Relation) (bound : Nat)
  | stepLimit (limit : Int)
  | divisionByZero
  -- The square root of a negative decimal.
  | negativeRoot
  -- An exponent or a number of digits that no decimal has.
  | outOfRange
  -- A result that is too large.
  | overflow
  -- An integer of more than `maxDigits` digits was to be read or written.
  | tooManyDigits
  -- A text that spells no integer where one was to be read.
  | notNumber
  -- A text that spells no decimal where one was to be read.
  | notDecimal
  -- An operator was applied to fewer operands than it needs.
  | missingOperand
  -- A document that does not have the shape of its schema.
  | invalidDocument
deriving DecidableEq

namespace Error

-- The refusal of an operand. It names the operand, so an operand that cannot be written makes the
-- refusal itself fail.
def ofOperand (v : Number) (relation : Relation) (bound : Nat) : Error :=
  if v.Writable then domain (.number v) relation bound else tooManyDigits

-- The message of an error. Errors that are no fault of the expression itself have none.
def message? : Error → Option String
  | malformed token          => some s!"Bad operation: {token}"
  | unbalanced               => some "Mismatched parentheses"
  | unknownOperator symbol   => some s!"Undefined operator: {symbol}"
  | arity n min max          =>
    let upper := max.elim "unbounded" toString
    some s!"Wrong number of operands: got {n}, expected [{min}, {upper}]"
  | invalidIdentifier token  => some s!"Illegal identifier: {token}"
  | undefinedIdentifier name => some s!"Undefined identifier: {name}"
  | reservedIdentifier name  => some s!"Illegal identifier: {name} is a reserved constant"
  | domain operand rel bound =>
    some s!"Wrong operand: expected a number {rel.text} {bound}, but got {operand.text}"
  | stepLimit n              => some s!"Stepper did not terminate within {n} steps"
  | _                        => none

end Error

instance {α} [DecidableEq α] : DecidableEq (Except Error α)
  | .ok a, .ok b       => decidable_of_iff (a = b) (by simp)
  | .error e, .error f => decidable_of_iff (e = f) (by simp)
  | .ok _, .error _ | .error _, .ok _ => isFalse nofun

-- The text of an integer, if it is short enough.
def writeInt (n : Int) : Except Error String :=
  if Writable n then .ok (toString n) else .error .tooManyDigits

def Fraction.write (q : Fraction) : Except Error String :=
  if q.Writable then .ok q.text else .error .tooManyDigits

def Number.write (v : Number) : Except Error String :=
  if v.Writable then .ok v.text else .error .tooManyDigits

end TermReduction
