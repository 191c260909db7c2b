/-!
Limits on the work that one request may cause. The bounds on a single group of dice are words of 16
bits, so whatever is built within any limits fits such words too.
-/

namespace DiceTables

/-- Upper bounds on dice, expressions, nested tables and the fan-out of a request. -/
structure Limits where
  /-- Most dice in one group. -/
  maxDice : UInt16 := 100
  /-- Most sides of a die. -/
  maxSides : UInt16 := 1000
  /-- Most groups of dice in one expression. -/
  maxTerms : Nat := 20
  /-- How deep tables may be nested inside outcomes. -/
  maxDepth : Nat := 3
  /-- Most comments or links that one step follows. -/
  maxFanOut : Nat := 50
deriving DecidableEq, Repr

end DiceTables
