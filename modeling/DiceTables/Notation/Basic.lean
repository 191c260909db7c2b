import DiceTables.Notation.Draft

/-!
Dice and expressions from what people write. An expression is refused for its alphabet first, then
for its form, then for a limit it breaks; a single group of dice goes straight to its form.
-/

namespace DiceTables

open Notation

/-- The group of dice that a text stands for. -/
def Dice.ofNotation (s : List Char) (limits : Limits) : Except NotationError Dice :=
  match diceDraft? (compact s) with
  | none => .error .malformed
  | some r => (r.build limits).mapError .dice

/-- The expression that a text stands for. -/
def Expr.ofNotation (s : List Char) (limits : Limits) : Except NotationError Expr := do
  checkAlphabet s
  match exprDraft? (compact s) with
  | none => .error .malformed
  | some d => d.build limits

end DiceTables
