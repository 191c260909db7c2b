import DiceTables.Work.Source

/-!
A source that holds all its items itself. Items are numbered in the order they are added; an item
may be a reply to another, and it may have an address. Blanks around an address and slashes at its
end make no difference.
-/

namespace DiceTables

/-- An item of a memory. -/
structure Stored where
  /-- What the item says. -/
  content : Content
  /-- Number of the item it replies to. -/
  parent : Option Nat := none
  /-- The address that leads to it. -/
  url : Option String := none
deriving DecidableEq, Repr

/-- A source that holds its items in the order they were added. -/
structure Memory where
  /-- The items. -/
  items : List Stored := []
deriving DecidableEq, Repr

/-- Why a memory cannot answer. -/
inductive MemoryError where
  /-- There is no item with this number. -/
  | unknownItem (id : Nat)
  /-- The replies above this item lead back to themselves. -/
  | endlessReplies (id : Nat)
deriving DecidableEq, Repr

/-- What a person is told. -/
def MemoryError.message : MemoryError → String
  | unknownItem id => "no such item: ItemId(" ++ toString id ++ ")"
  | endlessReplies id => "no end of replies above item: ItemId(" ++ toString id ++ ")"

namespace Memory

/-- An address without what makes no difference. -/
def normalize (url : String) : String :=
  String.ofList (Text.trimEndWhile (· = '/') (Text.trim url.toList))

/-- A memory with one more item, which has the next number. -/
def add (m : Memory) (content : Content) (parent : Option Nat) : Memory :=
  { items := m.items ++ [{ content, parent }] }

/-- A memory in which an address leads to an item, if there is such an item. -/
def setUrl (m : Memory) (id : Nat) (url : String) : Memory :=
  { items := m.items.modify id fun s => { s with url := some (normalize url) } }

/-- An item. -/
def get (m : Memory) (id : Nat) : Except MemoryError Stored :=
  match m.items[id]? with
  | some s => .ok s
  | none => .error (.unknownItem id)

/-- Number of the item that an address leads to; the first one, if there are more. -/
def find? (m : Memory) (href : String) : Option Nat :=
  m.items.findIdx? (·.url = some (normalize href))

/-- Numbers of the replies to an item. -/
def children (m : Memory) (id : Nat) : Except MemoryError (List Nat) := do
  let _ ← m.get id
  return (List.range m.items.length).filter fun i => (m.items[i]?.bind (·.parent)) = some id

/-- Number of the item at the top of the replies above an item, at most `steps` replies up. -/
def rootFrom (m : Memory) (id : Nat) : (steps : Nat) → Except MemoryError Nat
  | 0 => .error (.endlessReplies id)
  | steps + 1 => do
    match (← m.get id).parent with
    | none => return id
    | some parent => m.rootFrom parent steps

/-- Number of the item at the top of the replies above an item; none if it is at the top itself. No
way to the top visits more items than there are. -/
def submission (m : Memory) (id : Nat) : Except MemoryError (Option Nat) := do
  let root ← m.rootFrom id (m.items.length + 1)
  return if root = id then none else some root

/-- A memory as a source. It does not change when it is asked. -/
def source : Source Nat Memory where
  content id := fun m => ((m.get id).map (·.content) |>.mapError MemoryError.message, m)
  target href := fun m => (.ok (m.find? href), m)
  comments id := fun m => ((m.children id).mapError MemoryError.message, m)
  submission id := fun m => ((m.submission id).mapError MemoryError.message, m)

end Memory

end DiceTables
