/-!
Decimal numerals, read without a sign from the ten digits `0` to `9`. Zeros in front are allowed
here; dice notation, where they are not, says so itself.
-/

namespace DiceTables

/-- The number that a non-empty run of the digits `0` to `9` stands for. -/
def numeral? (s : List Char) : Option Nat :=
  if !s.isEmpty && s.all Char.isDigit then some (Nat.ofDigitChars 10 s 0) else none

/-- The number of a numeral that is at most `greatest`. -/
def numeralUpTo? (greatest : Nat) (s : List Char) : Option Nat :=
  (numeral? s).filter (· ≤ greatest)

end DiceTables
