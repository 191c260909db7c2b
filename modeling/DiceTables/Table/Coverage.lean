import DiceTables.Table.Basic

/-!
How well the outcomes of a table cover the values of its expression. The ranges of the outcomes are
looked at in ascending order while a cursor moves along the values: a range that starts after the
cursor leaves a gap, one that starts before it overlaps what has been covered. A table with warnings
can still be rolled.
-/

namespace DiceTables

/-- What is wrong with the coverage of a table. -/
inductive Warning where
  /-- The weights do not add up to the number of values. -/
  | weightMismatch (domain total : Int)
  /-- More than one outcome covers these values. -/
  | overlap (lo hi : Int)
  /-- No outcome covers these values. -/
  | gap (lo hi : Int)
  /-- The range of an outcome has values that the expression never takes. -/
  | outOfDomain (lo hi : Int)
deriving DecidableEq, Repr

namespace Warning

/-- A range of values; a single one is written alone. -/
def rangeText (lo hi : Int) : String :=
  if lo = hi then toString lo else toString lo ++ "-" ++ toString hi

/-- What a person is told. -/
def text : Warning → String
  | weightMismatch domain total =>
    "parsed dice allow " ++ toString domain ++ " results but entry weights sum to " ++
      toString total
  | overlap lo hi => "more than one entry for " ++ rangeText lo hi
  | gap lo hi => "no entry for " ++ rangeText lo hi
  | outOfDomain lo hi => "entry " ++ rangeText lo hi ++ " can never be rolled"

end Warning

namespace Table

/-- The order of ranges: by their first values, then by their last. -/
def rangeLe (a b : Int × Int) : Bool := decide (a.1 < b.1) || (a.1 = b.1 && decide (a.2 ≤ b.2))

/-- The ranges of the outcomes in ascending order. -/
def ranges (t : Table) : List (Int × Int) :=
  (t.entries.map fun e => (e.lo, e.hi)).mergeSort rangeLe

/-- What ascending ranges leave uncovered, cover twice or waste between `low` and `high`, where the
values before the cursor have been dealt with. -/
def scanRanges (low high : Int) : (cursor : Int) → List (Int × Int) → List Warning
  | cursor, [] => if cursor ≤ high then [.gap cursor high] else []
  | cursor, (lo, hi) :: rest =>
    let wasted := if lo < low ∨ high < hi then [.outOfDomain lo hi] else []
    let start := max lo low
    let stop := min hi high
    if stop < start then wasted ++ scanRanges low high cursor rest
    else
      let found : List Warning :=
        if cursor < start then [.gap cursor (Whole.subClamped start 1)]
        else if start < cursor then [.overlap start (min stop (Whole.subClamped cursor 1))]
        else []
      wasted ++ found ++ scanRanges low high (max cursor (Whole.addClamped stop 1)) rest

/-- Number of values the expression can take. -/
def domainSize (t : Table) : Int := Whole.addClamped (Whole.subClamped t.high t.low) 1

/-- Everything that is wrong with the coverage of a table, sums first, then from the lowest range to
the highest. -/
def warnings (t : Table) : List Warning :=
  (if t.totalWeight = t.domainSize then [] else [.weightMismatch t.domainSize t.totalWeight]) ++
    scanRanges t.low t.high t.low t.ranges

end Table

end DiceTables
