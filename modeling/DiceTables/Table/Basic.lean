import DiceTables.Notation.Basic
import DiceTables.Numeral
import DiceTables.Table.Line
import DiceTables.Text.Quoted

/-!
Tables: a description, the expression that is rolled, and outcomes for ranges of its values. A table
always has an outcome, and its expression has a range of values. Outcomes are taken in the order
they are written: each covers as many positions of that range as its own range is wide, and a value
selects the outcome that its position falls to.
-/

namespace DiceTables

/-- An outcome of a table: a range of numbers and a text. -/
structure Entry where
  /-- First number of the range. -/
  lo : Int
  /-- Last number of the range. -/
  hi : Int
  /-- What comes of it. -/
  text : String
  /-- The range is not empty. -/
  lo_le_hi : lo ≤ hi
deriving DecidableEq

namespace Entry

/-- An outcome between two numbers, in either order. -/
def between (a b : Int) (text : List Char) : Entry where
  lo := min a b
  hi := max a b
  text := String.ofList text
  lo_le_hi := by omega

/-- Number of values in the range. -/
def weight (e : Entry) : Int := Whole.addClamped (Whole.subClamped e.hi e.lo) 1

/-- A number of an outcome, which has to be a numeral within the range of 64 bits. -/
def number? (digits : List Char) : Option Int :=
  (numeralUpTo? Whole.greatest.toNat digits).map Int.ofNat

/-- The outcome of a numbered line. -/
def ofLine? (line : List Char) : Option Entry := do
  let parts ← Line.numbered? line
  let lo ← number? parts.first
  let hi ← match parts.last? with
    | some last => number? last
    | none => some lo
  return between lo hi parts.text

/-- The outcomes of a list of texts, one number each, counting up from `low`. -/
def enumerate (low : Int) (texts : List (List Char)) : List Entry :=
  texts.zipIdx.map fun (text, i) =>
    between (Whole.addClamped low i) (Whole.addClamped low i) text

/-- The outcomes among the lines of a table. Bullets count only where no line is numbered. -/
def ofLines (low : Int) (body : List (List Char)) : List Entry :=
  match body.filterMap ofLine? with
  | [] => enumerate low (body.filterMap Line.bulleted?)
  | numbered => numbered

end Entry

/-- Why a table cannot be built or rolled. -/
inductive TableError where
  /-- The header does not start with dice notation. -/
  | noDiceNotation (header : String)
  /-- The dice notation of the header is unusable. -/
  | formula (err : NotationError)
  /-- The expression has no value. -/
  | noValue (err : CalcError)
  /-- No line is an outcome. -/
  | noEntries (description : String)
deriving DecidableEq, Repr

/-- What a person is told. -/
def TableError.message : TableError → String
  | noDiceNotation header => "no dice notation at the start of " ++ Text.quote header
  | formula err => "invalid table header: " ++ err.message
  | noValue err => "table roll failed: " ++ err.message
  | noEntries description => "table " ++ Text.quote description ++ " has no outcome lines"

/-- A table of outcomes. -/
structure Table where
  /-- What the table is about; possibly nothing. -/
  description : String
  /-- The expression that selects an outcome. -/
  expr : Expr
  /-- The least value of the expression. -/
  low : Int
  /-- The greatest value of the expression. -/
  high : Int
  /-- The outcomes as they are written. -/
  entries : List Entry
  /-- How many tables this one lies within. -/
  depth : Nat
  /-- The limits under which tables inside its outcomes are read. -/
  limits : Limits
  /-- The values of the expression lie between the bounds. -/
  domain_eq : expr.domain = .ok (low, high)
  /-- There is an outcome. -/
  entries_ne_nil : entries ≠ []
deriving DecidableEq

namespace Table

/-! ### Building -/

/-- A table from its parts. -/
def ofParts (description : List Char) (expr : Expr) (entries : List Entry) (depth : Nat)
    (limits : Limits) : Except TableError Table :=
  if hne : entries = [] then .error (.noEntries (String.ofList description))
  else
    match hdom : expr.domain with
    | .error err => .error (.noValue err)
    | .ok (low, high) =>
      .ok { description := String.ofList description, expr, low, high, entries, depth, limits
            domain_eq := hdom, entries_ne_nil := hne }

/-- A table from its header and the lines after it. -/
def build (header : List Char) (body : List (List Char)) (limits : Limits) :
    Except TableError Table :=
  match Line.header? header with
  | none => .error (.noDiceNotation (String.ofList (Text.trim header)))
  | some parts => do
    let expr ← (Expr.ofNotation parts.formula limits).mapError .formula
    let (low, _) ← expr.domain.mapError .noValue
    ofParts parts.description expr (Entry.ofLines low body) 0 limits

/-- A table from a text whose first line with anything on it is the header. -/
def ofText (s : List Char) (limits : Limits) : Except TableError Table :=
  match Text.solidLines s with
  | [] => build [] [] limits
  | header :: body => build header body limits

/-- The header of a table in its plainest form. -/
def text (t : Table) : String :=
  if t.description.isEmpty then t.expr.text else t.expr.text ++ " " ++ t.description

/-! ### Selecting -/

/-- The sum of the weights of all outcomes. -/
def totalWeight (t : Table) : Int := (t.entries.map Entry.weight).foldl Whole.addClamped 0

/-- Index of the first outcome at which the running weight reaches a position, or else of the last.
-/
def indexFrom (position running : Int) : List Entry → Nat
  | [] => 0
  | [_] => 0
  | e :: rest =>
    let running := Whole.addClamped running e.weight
    if position ≤ running then 0 else indexFrom position running rest + 1

theorem indexFrom_lt (position running : Int) :
    ∀ entries : List Entry, entries ≠ [] → indexFrom position running entries < entries.length
  | [], h => absurd rfl h
  | [_], _ => Nat.zero_lt_one
  | e :: e' :: rest, _ => by
    have ih := indexFrom_lt position (Whole.addClamped running e.weight) (e' :: rest) (by simp)
    simp only [indexFrom, List.length_cons] at ih ⊢
    split <;> omega

/-- Position of a value within the range of the expression, counting from one. -/
def position (t : Table) (value : Int) : Int :=
  Whole.addClamped (Whole.subClamped value t.low) 1

/-- Index of the outcome that a value selects. -/
def indexFor (t : Table) (value : Int) : Nat := indexFrom (t.position value) 0 t.entries

/-- The outcome that a value selects. -/
def entryFor (t : Table) (value : Int) : Entry :=
  t.entries.get ⟨t.indexFor value, indexFrom_lt _ _ _ t.entries_ne_nil⟩

end Table

end DiceTables
