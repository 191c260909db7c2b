import DiceTables.Dice.Rolled

/-!
Rollers: where the numbers on the dice come from. A roller is asked for one die at a time and told
how many sides it has; it changes its state and answers with what the die shows, or has nothing left
to answer. Everything that rolls dice does so through a roller, so a run is a function of the
roller's first state.
-/

namespace DiceTables

/-- A source of die rolls with states `σ`. -/
structure Roller (σ : Type) where
  /-- What the next die shows, given its number of sides; nothing once the rolls have run out. -/
  draw : Nat → StateT σ Option Nat

namespace Roller

variable {σ : Type}

/-- A number of like dice, one after the other. -/
def draws (roller : Roller σ) (sides : Nat) : Nat → StateT σ Option (List Nat)
  | 0 => pure []
  | count + 1 => do
    let value ← roller.draw sides
    let values ← roller.draws sides count
    return value :: values

/-- A whole group of dice. -/
def roll (roller : Roller σ) (dice : Dice) : StateT σ Option Rolled := do
  return Rolled.ofRolls dice (← roller.draws dice.sides dice.count)

/-- The dice of a group again, as many as were rolled before. -/
def reroll (roller : Roller σ) (rolled : Rolled) : StateT σ Option Rolled := do
  return Rolled.ofRolls rolled.dice (← roller.draws rolled.dice.sides rolled.rolls.length)

/-! ### Rollers without chance -/

/-- Every die shows the same number, whatever its sides. -/
def fixed (value : Nat) : Roller Unit where
  draw := fun _ => pure value

/-- Every die shows its last side. -/
def highest : Roller Unit where
  draw := fun sides => pure sides

/-- The dice show the numbers of a list in turn, and none once the list is used up. -/
def replay : Roller (List Nat) where
  draw := fun _ remaining =>
    match remaining with
    | [] => none
    | value :: rest => some (value, rest)

/-! ### A roller that keeps a record -/

/-- A roller that also notes the sides of each die it is asked for, the latest first. -/
def recording (roller : Roller σ) : Roller (σ × List Nat) where
  draw := fun sides (state, asked) => do
    let (value, state) ← roller.draw sides state
    return (value, state, sides :: asked)

end Roller

end DiceTables
