import DiceTables.Expr.Basic
import DiceTables.Notation.Alphabet
import DiceTables.Text.Scanner

/-!
Compact notation and what it asks for. A number is `0` or starts with another digit; a group of dice
is `[count] d sides [^ or v kept]`, and an expression is a chain of groups and numbers with
operators between them. What is read is a draft: the numbers are as written and only have to fit a
word. A group is tried before a number, and a piece that may be left out is left out where it does
not fit.
-/

namespace DiceTables

/-- A term as it is written, before any limit has been checked. -/
inductive TermDraft where
  /-- A number. -/
  | num (n : Nat)
  /-- A group of dice. -/
  | dice (r : Dice.Request)
deriving DecidableEq

namespace TermDraft

/-- Whether a term asks for dice. -/
def isDice : TermDraft → Bool
  | num _ => false
  | dice _ => true

/-- The term that was asked for, or the rule that its dice break. -/
def build (limits : Limits) : TermDraft → Except NotationError Term
  | num n => .ok (.num n)
  | dice r => (r.build limits).mapError .dice |>.map .dice

end TermDraft

/-- An expression as it is written, before any limit has been checked. -/
structure ExprDraft where
  /-- The first term. -/
  first : TermDraft
  /-- The terms after it, each with the operator before it. -/
  rest : List (Op × TermDraft)
deriving DecidableEq

namespace ExprDraft

/-- The terms from left to right. -/
def terms (d : ExprDraft) : List TermDraft := d.first :: d.rest.map (·.2)

/-- Number of groups of dice. -/
def diceCount (d : ExprDraft) : Nat := d.terms.countP TermDraft.isDice

/-- The expression that was asked for. The number of groups is checked before the groups are, and
those from left to right. -/
def build (d : ExprDraft) (limits : Limits) : Except NotationError Expr :=
  if limits.maxTerms < d.diceCount then .error (.tooManyTerms d.diceCount limits.maxTerms)
  else do
    let first ← d.first.build limits
    let rest ← d.rest.mapM fun (op, t) => do return (op, ← t.build limits)
    return { first, rest }

end ExprDraft

namespace Notation

open Text

/-- A number without zeros in front, below a bound. -/
def readNumber (bound : Nat) : Scanner Nat := fun s =>
  let found : Option (Nat × List Char) := match s with
    | '0' :: rest => some (0, rest)
    | _ =>
      match s.takeWhile Char.isDigit with
      | [] => none
      | digits => some (Nat.ofDigitChars 10 digits 0, s.dropWhile Char.isDigit)
  found.filter (·.1 < bound)

/-- A number of dice, of sides or of kept dice lies below 2⁶⁴, so that it fits a word. -/
def diceNumberBound : Nat := 18446744073709551616

/-- A number that is a term lies below 2⁶³, so that it fits a word with a sign. -/
def termNumberBound : Nat := 9223372036854775808

/-- A number of dice, of sides or of kept dice. -/
def readDiceNumber : Scanner Nat := readNumber diceNumberBound

/-- A keep mode at the end of a group of dice. -/
def readKeep : Scanner Keep
  | '^' :: s => (readDiceNumber s).map fun (kept, s) => (.top kept, s)
  | 'v' :: s => (readDiceNumber s).map fun (kept, s) => (.bottom kept, s)
  | _ => none

/-- A group of dice. -/
def readDice : Scanner Dice.Request := fun s => do
  let (count, s) := (readDiceNumber s).getD (1, s)
  let (_, s) ← Scanner.one (· = 'd') s
  let (sides, s) ← readDiceNumber s
  let (keep, s) := (readKeep s).getD (.all, s)
  return ({ count, sides, keep }, s)

/-- A group of dice or a number. -/
def readTerm : Scanner TermDraft := fun s =>
  (readDice s).map (fun (r, s) => (.dice r, s)) <|>
  (readNumber termNumberBound s).map fun (n, s) => (.num n, s)

/-- An operator and the term after it. -/
def readLink : Scanner (Op × TermDraft)
  | [] => none
  | c :: s => do
    let op ← Op.ofSymbol? c
    let (t, s) ← readTerm s
    return ((op, t), s)

/-- An expression. -/
def readExpr : Scanner ExprDraft := fun s => do
  let (first, s) ← readTerm s
  let (rest, s) := Scanner.many readLink s
  return ({ first, rest }, s)

/-- What a reader makes of a whole text. -/
def whole? {α : Type} (read : Scanner α) (s : List Char) : Option α :=
  match read s with
  | some (x, []) => some x
  | _ => none

/-- The dice that a compact text asks for. -/
def diceDraft? (s : List Char) : Option Dice.Request := whole? readDice s

/-- The expression that a compact text asks for. -/
def exprDraft? (s : List Char) : Option ExprDraft := whole? readExpr s

end Notation

end DiceTables
