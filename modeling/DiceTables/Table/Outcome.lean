import DiceTables.Expr.Evaluated
import DiceTables.Table.Coverage
import DiceTables.Table.Inline

/-!
Rolling tables. A roll of the expression selects an outcome; if there is a table inside it, that one
is rolled next, and so on inwards. What comes of it is a chain of selections, from the table that
was rolled to the innermost one. Each table lies one deeper than the one around it and none deeper
than the limits allow, which bounds the chain.
-/

namespace DiceTables

/-- The outcome that a roll of one table selects. -/
structure Selection where
  /-- What the table is about. -/
  description : String
  /-- The expression of the table. -/
  expr : Expr
  /-- The roll of the expression. -/
  roll : Evaluated
  /-- The value of the roll. -/
  value : Int
  /-- The text of the outcome, without any table inside it. -/
  text : String
  /-- What is wrong with the coverage of the table. -/
  warnings : List Warning
  /-- How many tables the table lies within. -/
  depth : Nat
deriving DecidableEq

/-- The line of a selection in a report, indented by its depth. -/
def Selection.line (s : Selection) : String :=
  String.join (List.replicate s.depth "  ") ++
  (if s.warnings.isEmpty then ""
    else "[Table roll error: " ++ "; ".intercalate (s.warnings.map Warning.text) ++ ".] ") ++
  (if s.description.isEmpty then "" else s.description ++ ": ") ++
  s.expr.text ++ " -> " ++ toString s.value ++ ": " ++ s.text

/-- What comes of rolling a table. -/
structure Outcome where
  /-- The selection of the table itself. -/
  top : Selection
  /-- The selections of the tables inside it, from the outside inwards. -/
  nested : List Selection
deriving DecidableEq

namespace Outcome

/-- All selections from the outside inwards. -/
def selections (o : Outcome) : List Selection := o.top :: o.nested

/-- What comes of the table inside the selected outcome. -/
def nested? (o : Outcome) : Option Outcome :=
  match o.nested with
  | [] => none
  | top :: nested => some { top, nested }

/-- An outcome in a report, one line for each selection. -/
def text (o : Outcome) : String := "\n".intercalate (o.selections.map Selection.line)

end Outcome

namespace Table

/-- What a roll with a value selects. -/
def select (t : Table) (roll : Evaluated) (value : Int) : Selection where
  description := t.description
  expr := t.expr
  roll := roll
  value := value
  text := t.label (t.entryFor value)
  warnings := t.warnings
  depth := t.depth

end Table

namespace Roller

variable {σ : Type}

/-- What comes of a roll of a table with at most `levels` tables inside one another. -/
def resolveWithin (roller : Roller σ) : (levels : Nat) → Table → Evaluated →
    StateT σ Option (Except TableError Outcome)
  | levels, t, roll =>
    match roll.result with
    | .error err => pure (.error (.noValue err))
    | .ok value =>
      let top := t.select roll value
      match levels, t.subtable? (t.entryFor value) with
      | levels + 1, some inner => do
        let innerRoll ← roller.eval inner.expr
        match ← roller.resolveWithin levels inner innerRoll with
        | .error err => return .error err
        | .ok o => return .ok { top, nested := o.selections }
      | _, _ => pure (.ok { top, nested := [] })

/-- What comes of a roll of a table, rolling the tables inside the outcome it selects. -/
def resolve (roller : Roller σ) (t : Table) (roll : Evaluated) :
    StateT σ Option (Except TableError Outcome) :=
  roller.resolveWithin (t.limits.maxDepth - t.depth) t roll

/-- Rolls a table. -/
def rollTable (roller : Roller σ) (t : Table) : StateT σ Option (Except TableError Outcome) := do
  roller.resolve t (← roller.eval t.expr)

end Roller

end DiceTables
