import DiceTables.Dice.Basic

/-!
Rolled dice. The rolls lie in ascending order, so the kept ones are one stretch of the list; a
description shows the others in parentheses.
-/

namespace DiceTables

/-- A group of dice and what they show. -/
structure Rolled where
  /-- The dice that were rolled. -/
  dice : Dice
  /-- What each die shows, in ascending order. -/
  rolls : List Nat
  /-- The rolls ascend. -/
  ascending : rolls.Pairwise (· ≤ ·)
deriving DecidableEq

namespace Rolled

/-- Rolled dice from what each die shows, in any order. -/
def ofRolls (dice : Dice) (values : List Nat) : Rolled where
  dice := dice
  rolls := values.mergeSort (· ≤ ·)
  ascending := by
    have sorted := @List.pairwise_mergeSort Nat (fun a b => decide (a ≤ b))
      (by intro a b c; simp only [decide_eq_true_eq]; omega)
      (by intro a b; simp only [Bool.or_eq_true, decide_eq_true_eq]; omega) values
    exact sorted.imp (by intro a b; exact of_decide_eq_true)

/-- Index of the first kept roll. -/
def start (r : Rolled) : Nat := r.dice.keep.start r.rolls.length

/-- Index after the last kept roll. -/
def stop (r : Rolled) : Nat := r.dice.keep.stop r.rolls.length

/-- The rolls from one index up to another. -/
def between (r : Rolled) (start stop : Nat) : List Nat := (r.rolls.take stop).drop start

/-- The rolls that count. -/
def kept (r : Rolled) : List Nat := r.between r.start r.stop

/-- The sum of the rolls that count. -/
def value (r : Rolled) : Nat := r.kept.foldr (· + ·) 0

/-- Numbers with a space between them. -/
def spaced (values : List Nat) : String := " ".intercalate (values.map toString)

/-- The groups of rolls that a description lists: dropped rolls in parentheses before and after the
kept ones, and how many more there are than `shown`. -/
def groups (r : Rolled) (shown : Nat) : List String :=
  (if 0 < r.start then ["(" ++ spaced (r.between 0 (min r.start shown)) ++ ")"] else []) ++
  (if r.start < shown then [spaced (r.between r.start (min r.stop shown))] else []) ++
  (if r.stop < shown then ["(" ++ spaced (r.between r.stop shown) ++ ")"] else []) ++
  (if shown < r.rolls.length then [toString (r.rolls.length - shown) ++ " more..."] else [])

/-- The dice and their rolls, at most `limit` of them one by one. -/
def describe (r : Rolled) (limit : Option Nat) : String :=
  let shown := (limit.map (min · r.rolls.length)).getD r.rolls.length
  r.dice.text ++ "[" ++ " ".intercalate (r.groups shown) ++ "]"

/-- The dice, all their rolls and their value. -/
def text (r : Rolled) : String := r.describe none ++ " -> " ++ toString r.value

end Rolled

end DiceTables
