import DiceTables.Text.Digit
import DiceTables.Text.Noise
import DiceTables.Text.Scanner

/-!
The lines of a table. A header is a line that starts with dice notation; an outcome is a line that
starts with a number or a range of numbers, or with a bullet. Noise around a line is not looked at.
A line given by itself may hold a line break, and then its last part, which is free text, must not.

These patterns allow for how people write: blanks around signs, digits of any script, zeros in
front. Whether the numbers are usable is decided when they are read.
-/

namespace DiceTables.Line

open Text Scanner

/-- The letter between the number of dice and their sides. -/
def isDieLetter (c : Char) : Bool := c = 'd' || c = 'D'

/-- The sign of a keep mode. -/
def isKeepSign (c : Char) : Bool := c = 'v' || c = 'V' || c = '^'

/-- The sign of an operator. -/
def isOpSign (c : Char) : Bool := c = '-' || c = '+' || c = '*' || c = '/'

/-- A dash between the ends of a range. -/
def isDash (c : Char) : Bool := c = '-' || c = '–' || c = '—'

/-- A bullet in front of an outcome. -/
def isBullet (c : Char) : Bool := c = '*' || c = '+' || c = '•' || c = '-'

/-- A group of dice within a header. -/
def dice : Scanner (List Char) :=
  sequence [run isDecimalDigit, one isDieLetter, run1 isDecimalDigit,
    optional (sequence [run isBlank, one isKeepSign, run isBlank, run1 isDecimalDigit])]

/-- The dice notation that a header starts with: a group of dice, then groups and numbers with
operators between them. -/
def formula : Scanner (List Char) :=
  sequence [dice, repeated (sequence
    [run isBlank, one isOpSign, run isBlank, either dice (run1 isDecimalDigit)])]

/-- The end of a range, after its dashes. -/
def rangeEnd : Scanner (List Char) := fun s => do
  let (_, s) ← sequence [run isBlank, run1 isDash, run isBlank] s
  run1 isDecimalDigit s

/-- A header: its dice notation and the description after it. -/
structure Header where
  /-- The dice notation, as it is written. -/
  formula : List Char
  /-- The text after the notation, without noise around it. -/
  description : List Char

/-- The parts of a header, if the line is one. -/
def header? (line : List Char) : Option Header := do
  let (notated, rest) ← formula (strip line)
  if rest.contains '\n' then none
  else return { formula := notated, description := strip rest }

/-- Whether a line opens a table. -/
def isHeader (line : List Char) : Bool := (header? line).isSome

/-- An outcome with a number or a range of numbers. -/
structure Numbered where
  /-- The first number, as it is written. -/
  first : List Char
  /-- The last number of a range, as it is written. -/
  last? : Option (List Char)
  /-- The text of the outcome, without noise around it. -/
  text : List Char

/-- The parts of a numbered outcome, if the line is one. -/
def numbered? (line : List Char) : Option Numbered := do
  let (first, s) ← run1 isDecimalDigit (strip line)
  let (last?, rest) := match rangeEnd s with
    | some (last, rest) => (some last, rest)
    | none => (none, s)
  if rest.contains '\n' then none else return { first, last?, text := strip rest }

/-- The text of an outcome with a bullet, without noise around it, if the line is one. -/
def bulleted? (line : List Char) : Option (List Char) := do
  let (_, rest) ← sequence [one isBullet, run1 isBlank] (trim line)
  if rest.isEmpty || rest.contains '\n' then none else return strip rest

/-- Whether a line is an outcome. -/
def isOutcome (line : List Char) : Bool := (numbered? line).isSome || (bulleted? line).isSome

end DiceTables.Line
