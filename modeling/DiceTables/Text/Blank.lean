import DiceTables.Text.CodeRange

/-!
Blanks, trimming and lines. `trimWhile` drops a class of characters from both ends of a text and
touches nothing between them. `lines` cuts a text at its line breaks: a carriage return before a
line feed belongs to the break, and a break at the very end opens no further line.
-/

namespace DiceTables.Text

/-- The space characters and line breaks of every script. -/
def blanks : List (Nat × Nat) :=
  [(0x9, 0xD), (0x20, 0x20), (0x85, 0x85), (0xA0, 0xA0), (0x1680, 0x1680), (0x2000, 0x200A),
  (0x2028, 0x2029), (0x202F, 0x202F), (0x205F, 0x205F), (0x3000, 0x3000)]

/-- A space, a tab, a line break or a space of another width. -/
def isBlank (c : Char) : Bool := within c.toNat blanks

/-- A text without the characters of a class at its end. -/
def trimEndWhile (p : Char → Bool) (s : List Char) : List Char := (s.reverse.dropWhile p).reverse

/-- A text without the characters of a class at either end. -/
def trimWhile (p : Char → Bool) (s : List Char) : List Char := trimEndWhile p (s.dropWhile p)

/-- A text without blanks at either end. -/
def trim (s : List Char) : List Char := trimWhile isBlank s

/-- The lines of a text, without their breaks. -/
def lines : List Char → List (List Char)
  | [] => []
  | '\n' :: rest => [] :: lines rest
  | '\r' :: '\n' :: rest => [] :: lines rest
  | c :: rest =>
    match lines rest with
    | [] => [[c]]
    | line :: more => (c :: line) :: more

/-- The lines of a text that hold more than blanks, trimmed. -/
def solidLines (s : List Char) : List (List Char) := ((lines s).map trim).filter (!·.isEmpty)

end DiceTables.Text
