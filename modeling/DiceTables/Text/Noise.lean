import DiceTables.Text.Blank

/-!
Noise around a header or an outcome: blanks, the punctuation of the keyboard, which covers the marks
of emphasis and quotation that people type, and the dashes and bullets of typeset lists.
-/

namespace DiceTables.Text

/-- A punctuation mark of the keyboard. -/
def isAsciiPunctuation (c : Char) : Bool :=
  within c.toNat [(0x21, 0x2F), (0x3A, 0x40), (0x5B, 0x60), (0x7B, 0x7E)]

/-- A character that is dropped around a header, an outcome or a description. -/
def isNoise (c : Char) : Bool :=
  isBlank c || isAsciiPunctuation c || c = '–' || c = '—' || c = '•'

/-- A text without noise at either end. -/
def strip (s : List Char) : List Char := trimWhile isNoise s

end DiceTables.Text
