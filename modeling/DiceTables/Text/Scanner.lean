/-!
Scanners read something off the front of a text. A scanner never looks back, and a run takes all it
can get: for every pattern of this library a shorter run would leave a character behind that nothing
after the run can take, so no other way of reading is lost.

A pattern whose value is the text it took is put together with `sequence`, `either`, `optional` and
`repeated`. `findAll` reads the successive matches of a scanner, leftmost first, none overlapping
the one before it.
-/

namespace DiceTables.Text

/-- What a scanner read off the front of a text, and the text after it. -/
abbrev Scanner (α : Type) := List Char → Option (α × List Char)

namespace Scanner

/-- One character of a class. -/
def one (p : Char → Bool) : Scanner (List Char)
  | [] => none
  | c :: rest => if p c then some ([c], rest) else none

/-- The longest run of characters of a class, empty or not. -/
def run (p : Char → Bool) : Scanner (List Char) := fun s => some (s.takeWhile p, s.dropWhile p)

/-- The longest run of characters of a class, if there is one at all. -/
def run1 (p : Char → Bool) : Scanner (List Char) := fun s =>
  match s.takeWhile p with
  | [] => none
  | taken => some (taken, s.dropWhile p)

/-- A given piece of text. -/
def literal : List Char → Scanner (List Char)
  | [], s => some ([], s)
  | _ :: _, [] => none
  | c :: cs, d :: s =>
    if c = d then (literal cs s).map fun (taken, rest) => (d :: taken, rest) else none

/-- The first of two patterns that fits. -/
def either (a b : Scanner (List Char)) : Scanner (List Char) := fun s => a s <|> b s

/-- A pattern, or nothing where it does not fit. -/
def optional (a : Scanner (List Char)) : Scanner (List Char) := fun s => a s <|> some ([], s)

/-- Patterns one after the other. -/
def sequence : List (Scanner (List Char)) → Scanner (List Char)
  | [], s => some ([], s)
  | a :: more, s => do
    let (taken, rest) ← a s
    let (others, rest) ← sequence more rest
    return (taken ++ others, rest)

/-- A reader as often as it fits, as long as it takes something. -/
def many {α : Type} (a : Scanner α) (s : List Char) : List α × List Char :=
  match a s with
  | none => ([], s)
  | some (x, rest) =>
    if rest.length < s.length then
      let (xs, last) := many a rest
      (x :: xs, last)
    else ([], s)
termination_by s.length

/-- A pattern as often as it fits. -/
def repeated (a : Scanner (List Char)) : Scanner (List Char) := fun s =>
  let (pieces, rest) := many a s
  some (pieces.flatten, rest)

/-- A match within a text: where it starts, where the text goes on after it, and what it holds. -/
structure Found (α : Type) where
  /-- Number of characters before the match. -/
  start : Nat
  /-- Number of characters up to the end of the match. -/
  stop : Nat
  /-- What was read. -/
  value : α

/-- The successive matches in a text of which `passed` characters have been read already. -/
def findFrom {α : Type} (a : Scanner α) (passed : Nat) (s : List Char) : List (Found α) :=
  match s with
  | [] => []
  | c :: tail =>
    match a (c :: tail) with
    | none => findFrom a (passed + 1) tail
    | some (x, rest) =>
      if rest.length < tail.length + 1 then
        let stop := passed + (tail.length + 1 - rest.length)
        ⟨passed, stop, x⟩ :: findFrom a stop rest
      else findFrom a (passed + 1) tail
termination_by s.length

/-- The successive matches of a pattern in a text, leftmost first. -/
def findAll {α : Type} (a : Scanner α) (s : List Char) : List (Found α) := findFrom a 0 s

end Scanner

end DiceTables.Text
