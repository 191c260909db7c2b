import DiceTables.Text.Blank
import DiceTables.Text.Scanner

/-!
Links to other pages. What a link leads to is an address; a link may also have a text, which counts
only if it is more than blanks. In a list of links no address comes twice: the first link to it
stays.
-/

namespace DiceTables

/-- A link to another page. -/
structure Link where
  /-- The text of the link, if it has one. -/
  text : Option String
  /-- The address it leads to. -/
  href : String
deriving DecidableEq, Repr

namespace Link

open Text Scanner

/-- A link without a text. -/
def bare (href : List Char) : Link where
  text := none
  href := String.ofList href

/-- A link with a text, unless there is nothing but blanks in it. -/
def titled (text href : List Char) : Link where
  text := if (trim text).isEmpty then none else some (String.ofList (trim text))
  href := String.ofList href

/-- A link as it is written in Markdown. -/
def display (l : Link) : String :=
  match l.text with
  | some text => "[" ++ text ++ "](" ++ l.href ++ ")"
  | none => l.href

/-- Links without those whose address came before. -/
def distinct (links : List Link) : List Link := links.eraseDupsBy (·.href == ·.href)

/-- The scheme that an address starts with, where `isS` tells what counts as its last letter. -/
def scheme (http : Scanner (List Char)) (isS : Char → Bool) : Scanner (List Char) :=
  sequence [http, optional (one isS), literal "://".toList]

end Link

end DiceTables
