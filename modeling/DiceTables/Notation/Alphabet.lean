import DiceTables.Dice.Basic
import DiceTables.Text.Blank
import DiceTables.Text.LowerCase

/-!
The characters of dice notation. Case and blanks mean nothing in notation, so a text is compacted
before it is read: blanks dropped, everything in lower case. Whether a text could be notation at all
is a question of its alphabet; parentheses get an answer of their own, because people expect them to
work.
-/

namespace DiceTables

/-- Why a text is not usable dice notation. -/
inductive NotationError where
  /-- The text is not well formed. -/
  | malformed
  /-- The text holds these characters, which notation never has. -/
  | illegalCharacters (found : String)
  /-- The text has parentheses. -/
  | grouping
  /-- The expression has more groups of dice than the limit allows. -/
  | tooManyTerms (count max : Nat)
  /-- A group of dice breaks a rule. -/
  | dice (err : DiceError)
deriving DecidableEq, Repr

namespace NotationError

/-- What a person is told. -/
def message : NotationError → String
  | malformed => "invalid dice notation"
  | illegalCharacters found => "illegal characters in dice expression: " ++ found
  | grouping => "grouping with parentheses isn't supported"
  | tooManyTerms count max =>
    toString count ++ " dice groups is more than the maximum of " ++ toString max
  | dice err => err.message

/-- Whether the text is refused for something other than its form. -/
def isLimit : NotationError → Bool
  | malformed => false
  | illegalCharacters _ | grouping | tooManyTerms _ _ | dice _ => true

end NotationError

namespace Notation

open Text

/-- The characters that notation is written in. -/
def alphabet : List Char := "0123456789dDvV^+-*/".toList

/-- A text without blanks and in lower case. -/
def compact (s : List Char) : List Char := (s.filter (!isBlank ·)).flatMap lowerCase

/-- A parenthesis, opening or closing. -/
def isParenthesis (c : Char) : Bool := c = '(' || c = ')'

/-- The characters of a text that notation never has, each once. -/
def strangers (s : List Char) : List Char :=
  (s.filter fun c => !isBlank c && !alphabet.contains c).eraseDups

/-- Accepts a text whose characters can all occur in notation. -/
def checkAlphabet (s : List Char) : Except NotationError Unit :=
  if s.any isParenthesis then .error .grouping
  else if (strangers s).isEmpty then .ok ()
  else .error (.illegalCharacters (String.ofList (strangers s)))

end Notation

end DiceTables
