import DiceTables.Link.Basic
import DiceTables.Table.Basic

/-!
The jobs that a request breaks down into. A request looks for tables and links in items, a link
leads to another item, and a table that was found is rolled.
-/

namespace DiceTables

/-- How a request came in. -/
inductive Request (ι : Type) where
  /-- Somebody mentioned us in a comment. -/
  | mention (item : ι)
  /-- Somebody sent us a message. -/
  | message (item : ι)
deriving DecidableEq

/-- A piece of work. -/
inductive Job (ι : Type) where
  /-- Answer a request. -/
  | request (r : Request ι)
  /-- Find and roll the tables of an item; the label says where the item comes from. -/
  | parseItem (item : ι) (label : String)
  /-- Find and follow the links of an item; the label says where the item comes from. -/
  | scanLinks (item : ι) (label : String)
  /-- Follow a link and look for tables there. -/
  | followLink (link : Link)
  /-- Roll a table. -/
  | rollTable (table : Table)
  /-- Roll the expression of a table. -/
  | evalExpr (expr : Expr)
deriving DecidableEq

/-- What a job does, as a phrase. -/
def Job.text {ι : Type} : Job ι → String
  | request (.mention _) => "answer a mention"
  | request (.message _) => "answer a private message"
  | parseItem _ label => "look for tables in " ++ label
  | scanLinks _ label => "look for links in " ++ label
  | followLink link => "follow the link to " ++ link.href
  | rollTable table => "roll the " ++ table.text ++ " table"
  | evalExpr expr => "roll " ++ expr.text

end DiceTables
