import DiceTables.Dice.Basic
import DiceTables.Expr.Fold

/-!
Expressions over dice and numbers, and the range of their values. An expression is a chain of terms
without parentheses. Its least and greatest value come from the bounds of its terms: a term is taken
at its other bound when its product is subtracted, and once more when it divides.
-/

namespace DiceTables

/-- A term of an expression. -/
inductive Term where
  /-- A number. -/
  | num (n : Int)
  /-- A group of dice. -/
  | dice (d : Dice)
deriving DecidableEq

namespace Term

/-- A term in notation. -/
def text : Term → String
  | num n => toString n
  | dice d => d.text

/-- Whether a term is rolled. -/
def isDice : Term → Bool
  | num _ => false
  | dice _ => true

/-- The greatest or the least value of a term. -/
def bound (high : Bool) : Term → Int
  | num n => n
  | dice d => if high then d.greatest else d.least

end Term

/-- A chain of terms: the first one, and each further one with the operator before it. -/
structure Expr where
  /-- The first term. -/
  first : Term
  /-- The terms after it. -/
  rest : List (Op × Term)
deriving DecidableEq

namespace Expr

/-- The terms from left to right. -/
def terms (e : Expr) : List Term := e.first :: e.rest.map (·.2)

/-- Number of groups of dice. -/
def diceCount (e : Expr) : Nat := e.terms.countP Term.isDice

/-- Whether the value is the same every time. -/
def isDeterministic (e : Expr) : Bool := e.diceCount = 0

/-- An expression in notation, with a space on either side of each operator. -/
def text (e : Expr) : String :=
  e.first.text ++ String.join (e.rest.map fun (op, t) => " " ++ op.symbol.toString ++ " " ++ t.text)

/-- The terms after the first at the bounds that lead to the greatest or the least value;
`subtracted` says whether the product at hand is subtracted. -/
def boundTerms (high : Bool) : (subtracted : Bool) → List (Op × Term) → List (Op × Int)
  | _, [] => []
  | subtracted, (op, t) :: rest =>
    let subtracted := if op.isMultiplicative then subtracted else op = .sub
    let flipped := subtracted != (op = .div)
    (op, t.bound (high != flipped)) :: boundTerms high subtracted rest

/-- The value with every term at the bound that leads to the greatest or the least value. -/
def bound (e : Expr) (high : Bool) : Except CalcError Int :=
  foldOps (e.first.bound high) (boundTerms high false e.rest)

/-- The least value. -/
def least (e : Expr) : Except CalcError Int := e.bound false

/-- The greatest value. -/
def greatest (e : Expr) : Except CalcError Int := e.bound true

/-- The range of the values, its lower end first. -/
def domain (e : Expr) : Except CalcError (Int × Int) := do
  let low ← e.least
  let high ← e.greatest
  return (min low high, max low high)

end Expr

end DiceTables
