import DiceTables.Link.Basic

/-!
Links in rendered HTML: the anchors whose target is an address in quotes. Names are read in either
case, where the long s `ſ` counts as a small form of `S`. The text of an anchor runs up to the first
closing tag after it, across lines if need be.
-/

namespace DiceTables.Link

open Text Scanner

/-- A name in either case, given in small letters. -/
def eitherCase : List Char → Scanner (List Char)
  | [] => fun s => some ([], s)
  | c :: cs => sequence [one (·.toLower = c), eitherCase cs]

/-- The last letter of a scheme in a document. -/
def isSchemeS (c : Char) : Bool := c = 's' || c = 'S' || c = 'ſ'

/-- A quotation mark around an attribute. -/
def isQuote (c : Char) : Bool := c = '"' || c = '\''

/-- The target of an anchor, up to the end of its opening tag. -/
def target : Scanner (List Char) := fun s => do
  let (_, s) ← sequence
    [eitherCase "href".toList, run isBlank, one (· = '='), run isBlank, one isQuote] s
  let (href, s) ← sequence
    [scheme (eitherCase "http".toList) isSchemeS, run1 (!isQuote ·)] s
  let (_, s) ← sequence [one isQuote, run (· ≠ '>'), one (· = '>')] s
  return (href, s)

/-- A text up to the first closing tag of an anchor, and what follows the tag. -/
def upToClosing : Scanner (List Char)
  | [] => none
  | c :: rest =>
    match eitherCase "</a>".toList (c :: rest) with
    | some (_, after) => some ([], after)
    | none => (upToClosing rest).map fun (text, after) => (c :: text, after)

/-- The first place within a tag from which the rest of an anchor can be read. -/
def fromTarget : Scanner Link
  | [] => none
  | c :: rest =>
    let here : Option (Link × List Char) := do
      let (href, after) ← target (c :: rest)
      let (text, after) ← upToClosing after
      return (titled text href, after)
    here <|> if c = '>' then none else fromTarget rest

/-- An anchor. -/
def anchor : Scanner Link := fun s => do
  let (_, s) ← sequence [eitherCase "<a".toList, one isBlank] s
  fromTarget s

/-- The links of an HTML document in the order they appear. -/
def inHtml (s : List Char) : List Link := distinct ((findAll anchor s).map (·.value))

end DiceTables.Link
