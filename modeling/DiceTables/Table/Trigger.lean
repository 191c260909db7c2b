import DiceTables.Table.Line
import DiceTables.Text.Word

/-!
Dice notation within an outcome. Notation counts there only as a word of its own: it starts where no
word character stands before it and ends where none stands after it. It triggers a table inside the
outcome if some letter or digit comes before it, so an outcome that merely starts with a roll stays
plain text.
-/

namespace DiceTables

open Text Scanner

/-- Whether a text starts with no word character. -/
def endsWord : List Char → Bool
  | [] => true
  | c :: _ => !isWord c

/-- Dice notation in front of a text, if a word ends with it. The keep mode is left out where the
word does not end with it. -/
def wordDice : Scanner (List Char) := fun s => do
  let (plain, rest) ← sequence
    [run isDecimalDigit, one Line.isDieLetter, run1 isDecimalDigit] s
  let short := if endsWord rest then some (plain, rest) else none
  match sequence [one Line.isKeepSign, run1 isDecimalDigit] rest with
  | some (keep, rest) => if endsWord rest then some (plain ++ keep, rest) else short
  | none => short

/-- Dice notation within an outcome. -/
structure Trigger where
  /-- The text before the notation. -/
  before : List Char
  /-- The notation. -/
  dice : List Char
  /-- The text after the notation. -/
  after : List Char

namespace Trigger

/-- The text from the notation on. -/
def tail (t : Trigger) : List Char := t.dice ++ t.after

/-- The first trigger of a text of which `seen`, the last character first, has been passed. -/
def findFrom? (seen : List Char) : List Char → Option Trigger
  | [] => none
  | c :: rest =>
    let here := if endsWord (seen.take 1) then wordDice (c :: rest) else none
    match here with
    | some (dice, after) =>
      if seen.any isAlphanumeric then some { before := seen.reverse, dice, after }
      else findFrom? (c :: seen) rest
    | none => findFrom? (c :: seen) rest

/-- The first trigger of a text. -/
def find? (s : List Char) : Option Trigger := findFrom? [] s

end Trigger

end DiceTables
