import DiceTables.Expr.Op

/-!
The value of a chain of operators. One pass from left to right keeps the sum of all finished
products, the product at hand and the operator between the two, so products are done before sums
although nothing is ever looked at twice.
-/

namespace DiceTables

/-- A chain of operators in the middle of its pass. -/
structure Running where
  /-- The sum of the products before the one at hand. -/
  total : Int := 0
  /-- How the product at hand joins that sum. -/
  pending : Op := .add
  /-- The product at hand. -/
  product : Int

namespace Running

/-- The pass takes one more operator and the value after it. -/
def step (r : Running) (next : Op × Int) : Except CalcError Running :=
  if next.1.isMultiplicative then do
    return { r with product := ← next.1.apply r.product next.2 }
  else do
    return { total := ← r.pending.apply r.total r.product, pending := next.1, product := next.2 }

/-- The pass ends: the product at hand joins the sum. -/
def finish (r : Running) : Except CalcError Int := r.pending.apply r.total r.product

end Running

/-- The value of a first number and the operators and numbers after it. -/
def foldOps (first : Int) (rest : List (Op × Int)) : Except CalcError Int := do
  (← rest.foldlM Running.step { product := first }).finish

end DiceTables
