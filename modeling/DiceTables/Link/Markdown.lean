import DiceTables.Link.Basic

/-!
Links in Markdown text. A link is either written out, with its text in brackets and its address in
parentheses, or it is an address by itself. An address within a written-out link is part of that
link; the full stops and other marks that end a sentence are not part of an address by itself.
-/

namespace DiceTables.Link

open Text Scanner

/-- The scheme of an address in a text. -/
def textScheme : Scanner (List Char) := scheme (literal "http".toList) (· = 's')

/-- A link that is written out. -/
def written : Scanner Link := fun s => do
  let (_, s) ← one (· = '[') s
  let (text, s) ← run (· ≠ ']') s
  let (_, s) ← sequence [literal "](".toList, run isBlank] s
  let (href, s) ← sequence [textScheme, run1 fun c => c ≠ ')' && !isBlank c] s
  let (_, s) ← sequence [run isBlank, one (· = ')')] s
  return (titled text href, s)

/-- A character that an address by itself may hold. -/
def isAddress (c : Char) : Bool := !isBlank c && !"<>()[]\"'".toList.contains c

/-- A mark that may end a sentence right after an address. -/
def isSentenceMark (c : Char) : Bool := ".,;:!?".toList.contains c

/-- An address by itself. -/
def plain : Scanner Link := fun s => do
  let (href, s) ← sequence [textScheme, run1 isAddress] s
  return (bare (trimEndWhile isSentenceMark href), s)

/-- The links of a text with the places where they start: all that are written out, and each address
that starts outside of them. -/
def foundIn (s : List Char) : List (Found Link) :=
  let writtenOut := findAll written s
  let outside (f : Found Link) : Bool :=
    !writtenOut.any fun w => decide (w.start ≤ f.start) && decide (f.start < w.stop)
  writtenOut ++ (findAll plain s).filter outside

/-- The links of a Markdown text in the order they appear. -/
def inText (s : List Char) : List Link :=
  distinct (((foundIn s).mergeSort fun a b => decide (a.start ≤ b.start)).map (·.value))

end DiceTables.Link
