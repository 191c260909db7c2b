import DiceTables.Expr.Basic
import DiceTables.Roller.Basic

/-!
Evaluated expressions: every group of dice rolled, everything else as it was. The terms are rolled
from left to right, and rolling one again asks for the same dice in the same order.
-/

namespace DiceTables

/-- A term whose dice have been rolled. -/
inductive EvaluatedTerm where
  /-- A number. -/
  | num (n : Int)
  /-- A rolled group of dice. -/
  | dice (r : Rolled)
deriving DecidableEq

namespace EvaluatedTerm

/-- The value of a term. -/
def value : EvaluatedTerm → Int
  | num n => n
  | dice r => r.value

/-- A term in notation with what its dice show, at most `limit` of them one by one. -/
def describe (limit : Option Nat) : EvaluatedTerm → String
  | num n => toString n
  | dice r => r.describe limit

/-- The rolled dice of a term. -/
def rolled? : EvaluatedTerm → Option Rolled
  | num _ => none
  | dice r => some r

end EvaluatedTerm

/-- An expression whose dice have been rolled. -/
structure Evaluated where
  /-- The first term. -/
  first : EvaluatedTerm
  /-- The terms after it, each with the operator before it. -/
  rest : List (Op × EvaluatedTerm)
deriving DecidableEq

namespace Evaluated

/-- The terms from left to right. -/
def terms (e : Evaluated) : List EvaluatedTerm := e.first :: e.rest.map (·.2)

/-- The rolled groups of dice from left to right. -/
def rolls (e : Evaluated) : List Rolled := e.terms.filterMap EvaluatedTerm.rolled?

/-- The value of the expression. -/
def result (e : Evaluated) : Except CalcError Int :=
  foldOps e.first.value (e.rest.map fun (op, t) => (op, t.value))

/-- The expression with what its dice show, at most `limit` of each group one by one, and its value
or why it has none. -/
def describe (e : Evaluated) (limit : Option Nat) : String :=
  let shown := e.first.describe limit ++
    String.join (e.rest.map fun (op, t) => " " ++ op.symbol.toString ++ " " ++ t.describe limit)
  let shownResult := match e.result with
    | .ok value => toString value
    | .error err => err.message
  shown ++ " -> " ++ shownResult

/-- The expression with all its rolls and its value. -/
def text (e : Evaluated) : String := e.describe none

end Evaluated

namespace Roller

variable {σ : Type}

/-- Rolls the dice of a term. -/
def evalTerm (roller : Roller σ) : Term → StateT σ Option EvaluatedTerm
  | .num n => return .num n
  | .dice d => return .dice (← roller.roll d)

/-- Rolls the dice of an expression. -/
def eval (roller : Roller σ) (e : Expr) : StateT σ Option Evaluated := do
  let first ← roller.evalTerm e.first
  let rest ← e.rest.mapM fun (op, t) => do return (op, ← roller.evalTerm t)
  return { first, rest }

/-- Rolls the dice of a term again. -/
def rerollTerm (roller : Roller σ) : EvaluatedTerm → StateT σ Option EvaluatedTerm
  | .num n => return .num n
  | .dice r => return .dice (← roller.reroll r)

/-- Rolls the dice of an expression again. -/
def rerollAll (roller : Roller σ) (e : Evaluated) : StateT σ Option Evaluated := do
  let first ← roller.rerollTerm e.first
  let rest ← e.rest.mapM fun (op, t) => do return (op, ← roller.rerollTerm t)
  return { first, rest }

end Roller

end DiceTables
