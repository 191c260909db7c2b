import DiceTables.Config
import DiceTables.Work.Memory
import DiceTables.Work.Resolve

/-!
The command line. Input that could be a dice expression is rolled as one; everything else is a text
whose tables are rolled, as if it had come in as a message. Notation in parentheses could be an
expression as well, but one that cannot be rolled.
-/

namespace DiceTables.CommandLine

open Notation

/-- What the command prints, and its exit code. -/
structure Reply where
  /-- Zero, or one after an error. -/
  status : Nat
  /-- What goes to the standard output. -/
  out : String
  /-- The message of an error. -/
  err : Option String

/-- The reply to input that was dealt with. -/
def Reply.success (text : String) : Reply := { status := 0, out := text ++ "\n", err := none }

/-- The reply to input that was not. -/
def Reply.failure (message : String) : Reply :=
  { status := 1, out := "", err := some ("Error: " ++ message ++ "\n") }

/-- Most dice of a group that are listed one by one. -/
def listLimit : Nat := 100

/-- Whether input is a dice expression and not a text. -/
def isExpression (input : List Char) : Except NotationError Bool :=
  match checkAlphabet input with
  | .ok () => .ok true
  | .error .grouping =>
    match checkAlphabet (input.filter (!isParenthesis ·)) with
    | .ok () => .error .grouping
    | .error _ => .ok false
  | .error _ => .ok false

variable {σ : Type}

/-- Rolls an expression. -/
def rollExpression (config : Config) (roller : Roller σ) (input : List Char) :
    StateT σ Option Reply := do
  match exprDraft? (compact input) with
  | none =>
    return .failure ("Couldn't parse " ++ Text.quote (String.ofList (Text.trim input)))
  | some draft =>
    match draft.build config.limits with
    | .error err => return .failure err.message
    | .ok expr => return .success ((← roller.eval expr).describe (some listLimit))

/-- Rolls the tables of a text. -/
def rollText (config : Config) (roller : Roller σ) (input : List Char) :
    StateT σ Option Reply := fun state => do
  let memory : Memory := { items := [{ content := { text := String.ofList input } }] }
  let workshop : Workshop Nat Memory σ := { config, source := Memory.source, roller }
  let (node, _, state) ← (workshop.answer (.message 0)).run (memory, state)
  return (.success node.report, state)

/-- What the command replies to its input, with settings looked up by their keys. -/
def reply (lookup : String → Option String) (roller : Roller σ) (input : String) :
    StateT σ Option Reply :=
  match Config.ofLookup lookup with
  | .error err =>
    return .failure ("Invalid configuration\n\nCaused by:\n    " ++ err.message)
  | .ok config =>
    match isExpression input.toList with
    | .error err => return .failure err.message
    | .ok true => rollExpression config roller input.toList
    | .ok false => rollText config roller input.toList

end DiceTables.CommandLine
