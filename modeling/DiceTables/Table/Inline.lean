import DiceTables.Table.Basic
import DiceTables.Table.Trigger

/-!
Tables inside outcomes, such as `d3 1 fire 2 ice 3 acid`. After the dice come items: a number or a
range of numbers, then full stops, colons or closing parentheses, then a blank. The text of an item
runs up to the number of the next one. An item whose text triggers a table of its own takes
everything that follows with it, so tables nest only at the end.
-/

namespace DiceTables

open Text Scanner

/-- The beginning of an item. -/
structure Marker where
  /-- The number, as it is written. -/
  number : List Char
  /-- The last number of a range, as it is written. -/
  last? : Option (List Char)
  /-- The text from the number on. -/
  fromNumber : List Char
  /-- The text after the marker. -/
  after : List Char

namespace Marker

/-- A mark after the number of an item. -/
def isMark (c : Char) : Bool := c = '.' || c = ')' || c = ':'

/-- What parts the number of an item from its text. -/
def ending : Scanner (List Char) := sequence [run isMark, run1 isBlank]

/-- The marker that a text starts with. Without a proper ending a range is read as its first number
alone. -/
def at? (s : List Char) : Option Marker := do
  let (number, rest) ← run1 isDecimalDigit s
  let ranged : Option Marker := do
    let (last, rest) ← Line.rangeEnd rest
    let (_, after) ← ending rest
    return { number, last? := some last, fromNumber := s, after }
  let single : Option Marker := do
    let (_, after) ← ending rest
    return { number, last? := none, fromNumber := s, after }
  ranged <|> single

/-- The markers of a text, each with no word character in front of it. -/
def findFrom (s : List Char) : List Marker :=
  match s with
  | [] => []
  | c :: rest =>
    if isWord c then findFrom rest
    else
      match at? rest with
      | none => findFrom rest
      | some m => if m.after.length < rest.length then m :: findFrom m.after else findFrom rest
termination_by s.length

/-- The markers of a text; at its very start one needs nothing in front of it. -/
def findAll (s : List Char) : List Marker :=
  match at? s with
  | none => findFrom s
  | some m => m :: findFrom m.after

/-- The text of an item: up to the number of the next one, or all that is left. -/
def body (m : Marker) : (next : List Marker) → List Char
  | [] => m.after
  | next :: _ => m.after.take (m.after.length - next.fromNumber.length)

end Marker

namespace Table

/-- The items that a list of markers opens. A number outside the range of 64 bits opens no item; the
end of a range outside it counts as the number alone. -/
def inlineEntries : List Marker → List Entry
  | [] => []
  | m :: more =>
    match Entry.number? m.number with
    | none => inlineEntries more
    | some lo =>
      let hi := (m.last?.bind Entry.number?).getD lo
      match Trigger.find? (m.body more) with
      | some _ => [Entry.between lo hi (strip m.after)]
      | none => Entry.between lo hi (strip (m.body more)) :: inlineEntries more

/-- The table inside an outcome, from the text that starts with its dice. It takes at least two
items to tell a table from plain text. -/
def inline? (tail : List Char) (depth : Nat) (limits : Limits) : Option Table := do
  let (dice, rest) ← wordDice tail
  let expr ← (Expr.ofNotation dice limits).toOption
  let entries := inlineEntries (Marker.findAll rest)
  if entries.length < 2 then none
  else (ofParts [] expr entries depth limits).toOption

/-- The dice notation that may open a table inside an outcome, unless the outcome lies as deep as
the limits allow. -/
def trigger? (t : Table) (e : Entry) : Option Trigger :=
  if t.depth < t.limits.maxDepth then Trigger.find? e.text.toList else none

/-- The table inside an outcome. -/
def subtable? (t : Table) (e : Entry) : Option Table :=
  (t.trigger? e).bind fun trigger => inline? trigger.tail (t.depth + 1) t.limits

/-- The text of an outcome as it is shown: without the table inside it, if it has one. -/
def label (t : Table) (e : Entry) : String :=
  match t.trigger? e, t.subtable? e with
  | some trigger, some _ => String.ofList (strip trigger.before)
  | _, _ => e.text

end Table

end DiceTables
