import DiceTables.Whole

/-!
Operators and what they compute. All four work on whole numbers of 64 bits and refuse a result
outside that range; a quotient is rounded down, whatever the signs.
-/

namespace DiceTables

/-- Why an expression has no value. -/
inductive CalcError where
  /-- A result outside the numbers of 64 bits. -/
  | overflow
  /-- A quotient by zero. -/
  | divisionByZero
deriving DecidableEq, Repr

/-- What a person is told. -/
def CalcError.message : CalcError → String
  | overflow => "integer overflow"
  | divisionByZero => "division by zero"

/-- An operator between two terms. -/
inductive Op where
  /-- Sum. -/
  | add
  /-- Difference. -/
  | sub
  /-- Product. -/
  | mul
  /-- Quotient, rounded down. -/
  | div
deriving DecidableEq, Repr

namespace Op

/-- The sign of an operator in notation. -/
def symbol : Op → Char
  | add => '+'
  | sub => '-'
  | mul => '*'
  | div => '/'

/-- The operator that a sign stands for. -/
def ofSymbol? : Char → Option Op
  | '+' => some add
  | '-' => some sub
  | '*' => some mul
  | '/' => some div
  | _ => none

/-- Whether an operator binds tighter than a sum. -/
def isMultiplicative : Op → Bool
  | mul | div => true
  | add | sub => false

/-- A result within the range of 64 bits, or an overflow. -/
def inRange (n : Int) : Except CalcError Int :=
  match Whole.checked n with
  | some n => .ok n
  | none => .error .overflow

/-- A quotient rounded down: the quotient rounded towards zero, less one where a fraction below zero
was cut off. -/
def floorDiv (a b : Int) : Except CalcError Int :=
  if b = 0 then .error .divisionByZero
  else do
    let quotient ← inRange (a.tdiv b)
    let remainder := a.tmod b
    if remainder ≠ 0 ∧ (remainder < 0 : Bool) ≠ (b < 0 : Bool) then inRange (quotient - 1)
    else return quotient

/-- The value of an operator between two values. -/
def apply (op : Op) (a b : Int) : Except CalcError Int :=
  match op with
  | add => inRange (a + b)
  | sub => inRange (a - b)
  | mul => inRange (a * b)
  | div => floorDiv a b

end Op

end DiceTables
