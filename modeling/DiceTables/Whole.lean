/-!
Whole numbers of 64 bits with a sign, the range of every value of an expression and every bound of a
table. Values of expressions are exact or refused (`checked`). The widths and positions inside a
table stop at the ends of the range instead (`addClamped`, `subClamped`).
-/

namespace DiceTables.Whole

/-- The least number of 64 bits with a sign, -2⁶³. -/
def least : Int := -9223372036854775808

/-- The greatest number of 64 bits with a sign, 2⁶³ - 1. -/
def greatest : Int := 9223372036854775807

/-- A number within the range, or nothing. -/
def checked (n : Int) : Option Int := if least ≤ n ∧ n ≤ greatest then some n else none

/-- The number of the range that is closest to a number. -/
def clamp (n : Int) : Int := max least (min n greatest)

/-- A sum that stops at the ends of the range. -/
def addClamped (a b : Int) : Int := clamp (a + b)

/-- A difference that stops at the ends of the range. -/
def subClamped (a b : Int) : Int := clamp (a - b)

end DiceTables.Whole
