import DiceTables.Link.Anchor
import DiceTables.Link.Markdown

/-!
Where the things to be read come from. A source holds items, such as posts, comments and messages.
It can be asked for the content of an item, for the item that an address leads to, for the comments
on a post and for the post that a comment was made under. It may change with every question, and
every question may fail with a message.
-/

namespace DiceTables

/-- The content of an item. -/
structure Content where
  /-- The text as it was written. -/
  text : String
  /-- The text as it is rendered, if that is known. -/
  html : Option String := none
deriving DecidableEq, Repr

/-- The links of an item; those of the rendered text, if there is one. -/
def Content.links (c : Content) : List Link :=
  match c.html with
  | some html => Link.inHtml html.toList
  | none => Link.inText c.text.toList

/-- A source of items `ι` with states `τ`. -/
structure Source (ι τ : Type) where
  /-- The content of an item. -/
  content : ι → StateM τ (Except String Content)
  /-- The item that an address leads to, or none if it leads elsewhere. -/
  target : String → StateM τ (Except String (Option ι))
  /-- The comments right below an item. -/
  comments : ι → StateM τ (Except String (List ι))
  /-- The post that an item was written under, or none if it is a post itself. -/
  submission : ι → StateM τ (Except String (Option ι))

/-- Which questions a source does not answer for the time being. -/
structure Outage (ι : Type) where
  /-- Items whose content cannot be had. -/
  content : ι → Bool := fun _ => false
  /-- Addresses that cannot be followed. -/
  target : String → Bool := fun _ => false
  /-- Whether comments cannot be listed. -/
  comments : Bool := false
  /-- Whether the post above a comment cannot be found. -/
  submission : Bool := false

/-- A source during an outage: the questions concerned fail with the same message, the others are
answered as ever. -/
def Source.during {ι τ : Type} (source : Source ι τ) (outage : Outage ι) (message : String) :
    Source ι τ where
  content item := if outage.content item then return .error message else source.content item
  target href := if outage.target href then return .error message else source.target href
  comments item := if outage.comments then return .error message else source.comments item
  submission item := if outage.submission then return .error message else source.submission item

end DiceTables
