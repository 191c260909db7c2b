import DiceTables.Dice.Keep
import DiceTables.Limits

/-!
Groups of dice. A `Dice.Request` holds the numbers as someone asked for them; `Dice.Request.build`
turns it into `Dice`, or says which rule it breaks first. `Dice` can only hold what can be rolled:
at least one die of at least two sides, of which at least one and at most all are kept.
-/

namespace DiceTables

/-- A group of like dice that are rolled together. -/
structure Dice where
  /-- Number of dice. -/
  count : Nat
  /-- Number of sides of each die. -/
  sides : Nat
  /-- Which of the dice count once they are rolled. -/
  keep : Keep
  /-- At least one die is rolled. -/
  one_le_count : 1 ≤ count
  /-- The number of dice fits a word of 16 bits. -/
  count_lt : count < 65536
  /-- A die has at least two sides. -/
  two_le_sides : 2 ≤ sides
  /-- The number of sides fits a word of 16 bits. -/
  sides_lt : sides < 65536
  /-- At least one die is kept. -/
  one_le_kept : 1 ≤ keep.count count
  /-- No more dice are kept than are rolled. -/
  kept_le_count : keep.count count ≤ count
deriving DecidableEq

namespace Dice

/-- Number of dice that count towards the value. -/
def kept (d : Dice) : Nat := d.keep.count d.count

/-- The least value, every kept die showing one. -/
def least (d : Dice) : Nat := d.kept

/-- The greatest value, every kept die showing its last side. -/
def greatest (d : Dice) : Nat := d.kept * d.sides

/-- The shortest notation of a group of dice: a single die has no count. -/
def text (d : Dice) : String :=
  (if d.count = 1 then "" else toString d.count) ++ "d" ++ toString d.sides ++ d.keep.text

end Dice

/-- Why a group of dice cannot be rolled. -/
inductive DiceError where
  /-- No dice would be rolled. -/
  | noDice
  /-- More dice than the limit allows. -/
  | tooManyDice (count max : Nat)
  /-- A die with no choice of sides. -/
  | tooFewSides (sides : Nat)
  /-- More sides than the limit allows. -/
  | tooManySides (sides max : Nat)
  /-- No dice kept, or more than are rolled. -/
  | keepOutOfRange (keep count : Nat)
deriving DecidableEq, Repr

namespace DiceError

/-- What a person is told. -/
def message : DiceError → String
  | noDice => "at least one die must be rolled"
  | tooManyDice count max =>
    toString count ++ " dice is more than the maximum of " ++ toString max
  | tooFewSides sides => "dice need at least two sides, not " ++ toString sides
  | tooManySides sides max =>
    "d" ++ toString sides ++ " is bigger than the maximum die size of " ++ toString max
  | keepOutOfRange keep count =>
    "can't keep " ++ toString keep ++ " of " ++ toString count ++ " dice"

end DiceError

namespace Dice

/-- Dice as they are asked for, before anything about them has been checked. -/
structure Request where
  /-- Number of dice. -/
  count : Nat := 1
  /-- Number of sides of each die. -/
  sides : Nat := 20
  /-- Which of the dice are to count. -/
  keep : Keep := .all
deriving DecidableEq, Repr

namespace Request

/-- A number as a word of 16 bits; one that does not fit becomes the greatest word. -/
def narrow (n : Nat) : Nat := min n 65535

theorem narrow_of_lt {n : Nat} (h : n < 65536) : narrow n = n := by
  rw [narrow]
  omega

/-- The dice that were asked for, in words of 16 bits, or the first rule they break. -/
def build (r : Request) (limits : Limits) : Except DiceError Dice :=
  if h₁ : r.count = 0 then .error .noDice
  else if h₂ : r.sides < 2 then .error (.tooFewSides r.sides)
  else if h₃ : limits.maxDice.toNat < r.count then
    .error (.tooManyDice r.count limits.maxDice.toNat)
  else if h₄ : limits.maxSides.toNat < r.sides then
    .error (.tooManySides r.sides limits.maxSides.toNat)
  else if h₅ : r.keep.count r.count = 0 ∨ r.count < r.keep.count r.count then
    .error (.keepOutOfRange (r.keep.count r.count) r.count)
  else
    .ok { count := narrow r.count, sides := narrow r.sides, keep := r.keep.map narrow
          one_le_count := by rw [narrow]; omega
          count_lt := by rw [narrow]; omega
          two_le_sides := by rw [narrow]; omega
          sides_lt := by rw [narrow]; omega
          one_le_kept := by rw [Keep.count_map, narrow]; omega
          kept_le_count := by rw [Keep.count_map, narrow, narrow]; omega }

end Request

end Dice

end DiceTables
