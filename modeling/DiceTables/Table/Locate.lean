import DiceTables.Table.Basic

/-!
Finding tables in a text. Only lines with something on them matter. Each header opens a block, which
runs up to the next header; lines after the last outcome of a block are left out of it. A block that
does not make a table stands in no other's way.
-/

namespace DiceTables

/-- A header and the lines after it that may belong to its table. -/
structure Block where
  /-- The line that opens the block. -/
  header : List Char
  /-- The lines after the header, up to the last outcome. -/
  body : List (List Char)
  /-- Number of the header among the lines of the text. -/
  start : Nat

namespace Block

/-- Number of the line after the block. -/
def stop (b : Block) : Nat := b.start + 1 + b.body.length

/-- The table of a block. -/
def table (b : Block) (limits : Limits) : Except TableError Table :=
  Table.build b.header b.body limits

/-- Lines without those after the last outcome. -/
def upToLastOutcome (lines : List (List Char)) : List (List Char) :=
  (lines.reverse.dropWhile (!Line.isOutcome ·)).reverse

/-- The blocks among lines that follow `passed` others. -/
def locateFrom (passed : Nat) : List (List Char) → List Block
  | [] => []
  | line :: rest =>
    let later := locateFrom (passed + 1) rest
    if Line.isHeader line then
      { header := line, body := upToLastOutcome (rest.takeWhile (!Line.isHeader ·)),
        start := passed } :: later
    else later

/-- The blocks of a text. -/
def locate (s : List Char) : List Block := locateFrom 0 (Text.solidLines s)

end Block

/-- The tables of a text. -/
def Table.allIn (s : List Char) (limits : Limits) : List Table :=
  (Block.locate s).filterMap fun b => (b.table limits).toOption

end DiceTables
