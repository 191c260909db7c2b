/-!
Keep modes: which dice of a group count. Rolled dice lie in ascending order, so every mode keeps one
stretch of them: all, the end, or the beginning.
-/

namespace DiceTables

/-- Which of the rolled dice of a group count towards its value. -/
inductive Keep where
  /-- Every die counts. -/
  | all
  /-- Only the given number of highest dice count. -/
  | top (kept : Nat)
  /-- Only the given number of lowest dice count. -/
  | bottom (kept : Nat)
deriving DecidableEq, Repr

namespace Keep

/-- How many of `count` dice are kept. -/
def count (k : Keep) (count : Nat) : Nat :=
  match k with
  | all => count
  | top kept => kept
  | bottom kept => kept

/-- The same mode with its number of dice changed. -/
def map (f : Nat → Nat) : Keep → Keep
  | all => all
  | top kept => top (f kept)
  | bottom kept => bottom (f kept)

theorem count_map (f : Nat → Nat) (k : Keep) (n : Nat) : (k.map f).count (f n) = f (k.count n) := by
  cases k <;> rfl

/-- Index of the first kept die among `len` dice in ascending order. -/
def start (k : Keep) (len : Nat) : Nat :=
  match k with
  | top kept => len - kept
  | _ => 0

/-- Index after the last kept die among `len` dice in ascending order. -/
def stop (k : Keep) (len : Nat) : Nat :=
  match k with
  | bottom kept => min kept len
  | _ => len

/-- The sign of a keep mode in dice notation; a group that keeps everything has none. -/
def symbol? : Keep → Option Char
  | all => none
  | top _ => some '^'
  | bottom _ => some 'v'

/-- A keep mode as it ends a group of dice in notation. -/
def text : Keep → String
  | all => ""
  | top kept => "^" ++ toString kept
  | bottom kept => "v" ++ toString kept

end Keep

end DiceTables
