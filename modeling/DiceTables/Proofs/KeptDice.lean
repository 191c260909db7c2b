import DiceTables.Proofs.DiceRules
import DiceTables.Proofs.Rolling
import Mathlib.Data.List.Sort
import Mathlib.Order.Bounds.Basic

/-!
Which dice count. The rolls lie in ascending order, and only a stretch of them is cut out: the end for
the highest dice, the beginning for the lowest. No other choice of as many dice does better, for the
choice can be compared die by die with what is cut out: the first die chosen shows at least as much as
the first of all, and so on. So the value is the best of all choices, whatever the order in which the
dice were rolled.
-/

namespace DiceTables

open List (Forall₂)

/-! ### Choices from a list -/

/-- The sums of all ways to choose a number of values from a list. -/
def choiceSums (values : List Nat) (count : Nat) : Set Nat :=
  {total | ∃ chosen : List Nat, chosen.Sublist values ∧ chosen.length = count ∧ chosen.sum = total}

/-- The order of the values makes no difference to what can be chosen. -/
theorem choiceSums_subset_of_perm {values other : List Nat} (h : values.Perm other) (count : Nat) :
    choiceSums values count ⊆ choiceSums other count := by
  rintro total ⟨chosen, hchosen, rfl, rfl⟩
  obtain ⟨chosen', hperm, hchosen'⟩ := List.exists_perm_sublist hchosen h
  exact ⟨chosen', hchosen', hperm.length_eq, hperm.sum_eq⟩

theorem choiceSums_of_perm {values other : List Nat} (h : values.Perm other) (count : Nat) :
    choiceSums values count = choiceSums other count :=
  (choiceSums_subset_of_perm h count).antisymm (choiceSums_subset_of_perm h.symm count)

/-- The beginning of an ordered list comes before any other choice from it, element by element. -/
theorem forall₂_take_sublist {α : Type} {R : α → α → Prop} (hrefl : ∀ a, R a a) :
    ∀ {l chosen : List α}, l.Pairwise R → chosen.Sublist l →
      Forall₂ R (l.take chosen.length) chosen
  | _, [], _, _ => by simp
  | [], _ :: _, _, h => by cases h
  | a :: l, c :: chosen, hl, h => by
    obtain ⟨ha, hl⟩ := List.pairwise_cons.mp hl
    rw [List.length_cons, List.take_succ_cons]
    refine .cons ?_ (forall₂_take_sublist hrefl hl h.of_cons_cons)
    rcases List.mem_cons.mp (h.subset List.mem_cons_self) with rfl | hc
    · exact hrefl c
    · exact ha c hc

/-- The beginning of an ascending list is the least choice. -/
theorem isLeast_sum_take {l : List Nat} (hl : l.Pairwise (· ≤ ·)) {count : Nat}
    (hcount : count ≤ l.length) : IsLeast (choiceSums l count) (l.take count).sum := by
  refine ⟨⟨l.take count, List.take_sublist count l, List.length_take_of_le hcount, rfl⟩, ?_⟩
  rintro total ⟨chosen, hchosen, rfl, rfl⟩
  exact (forall₂_take_sublist le_refl hl hchosen).sum_le_sum

/-- The end of an ascending list is the greatest choice. -/
theorem isGreatest_sum_drop {l : List Nat} (hl : l.Pairwise (· ≤ ·)) {count : Nat}
    (hcount : count ≤ l.length) :
    IsGreatest (choiceSums l count) (l.drop (l.length - count)).sum := by
  refine ⟨⟨_, List.drop_sublist _ l, by rw [List.length_drop]; omega, rfl⟩, ?_⟩
  rintro total ⟨chosen, hchosen, rfl, rfl⟩
  -- read backwards, the end is the beginning of a descending list
  have hreverse : l.reverse.Pairwise (· ≥ ·) := List.pairwise_reverse.mpr hl
  have hbefore := forall₂_take_sublist (R := (· ≥ ·)) le_refl hreverse hchosen.reverse
  rw [List.length_reverse, List.take_reverse] at hbefore
  simpa using hbefore.flip.sum_le_sum

/-! ### The value of rolled dice -/

/-- The numbers that a group of dice can show, one for each die. -/
structure Dice.Shows (d : Dice) (values : List Nat) : Prop where
  length_eq : values.length = d.count
  isSide : ∀ v ∈ values, 1 ≤ v ∧ v ≤ d.sides

/-- What a keep mode makes of some values: the sum of all of them, or the greatest or the least sum of
as many as are kept. -/
def Keep.IsValue (values : List Nat) (total : Nat) : Keep → Prop
  | .all => total = values.sum
  | .top kept => IsGreatest (choiceSums values kept) total
  | .bottom kept => IsLeast (choiceSums values kept) total

namespace Rolled

/-- The rolls of a group of dice that show some values: what is stored, what counts, and its sum. -/
structure Counts (d : Dice) (values : List Nat) (r : Rolled) : Prop where
  dice_eq : r.dice = d
  rolls_eq_iff : ∀ l, l = r.rolls ↔ l.Perm values ∧ l.Pairwise (· ≤ ·)
  length_kept : r.kept.length = d.kept
  isValue : d.keep.IsValue values r.value
  any_order : ∀ other, other.Perm values → ofRolls d other = r
  value_lt : r.value < 4294967296
  least_le : d.least ≤ r.value
  le_greatest : r.value ≤ d.greatest

theorem perm_rolls_ofRolls (d : Dice) (values : List Nat) : (ofRolls d values).rolls.Perm values :=
  List.mergeSort_perm values _

/-- There is one way to put values in ascending order. -/
theorem eq_rolls_ofRolls_iff {d : Dice} {values l : List Nat} :
    l = (ofRolls d values).rolls ↔ l.Perm values ∧ l.Pairwise (· ≤ ·) := by
  constructor
  · rintro rfl
    exact ⟨perm_rolls_ofRolls d values, (ofRolls d values).ascending⟩
  · rintro ⟨hperm, hsorted⟩
    exact (hperm.trans (perm_rolls_ofRolls d values).symm).eq_of_pairwise' hsorted
      (ofRolls d values).ascending

theorem ofRolls_eq_of_perm {d : Dice} {values other : List Nat} (h : other.Perm values) :
    ofRolls d other = ofRolls d values := by
  have hrolls : (ofRolls d other).rolls = (ofRolls d values).rolls :=
    eq_rolls_ofRolls_iff.mpr ⟨(perm_rolls_ofRolls d other).trans h, (ofRolls d other).ascending⟩
  simp only [ofRolls] at hrolls ⊢
  simp only [hrolls]

/-- The kept rolls have the value that the keep mode asks for. -/
theorem isValue_rolls {r : Rolled} (h : r.rolls.length = r.dice.count) :
    r.dice.keep.IsValue r.rolls r.value := by
  have hle := r.dice.kept_le_count
  rw [← h] at hle
  show r.dice.keep.IsValue r.rolls ((r.rolls.take r.stop).drop r.start).sum
  rw [start, stop]
  cases hkeep : r.dice.keep with
  | all =>
    show ((r.rolls.take r.rolls.length).drop 0).sum = r.rolls.sum
    rw [List.take_length, List.drop_zero]
  | top kept =>
    rw [hkeep] at hle
    show IsGreatest _ ((r.rolls.take r.rolls.length).drop (r.rolls.length - kept)).sum
    rw [List.take_length]
    exact isGreatest_sum_drop r.ascending hle
  | bottom kept =>
    replace hle : kept ≤ r.rolls.length := by rwa [hkeep] at hle
    show IsLeast _ ((r.rolls.take (min kept r.rolls.length)).drop 0).sum
    rw [List.drop_zero, min_eq_left hle]
    exact isLeast_sum_take r.ascending hle

end Rolled

theorem Keep.IsValue.of_perm {k : Keep} {values other : List Nat} {total : Nat}
    (h : k.IsValue values total) (hperm : values.Perm other) : k.IsValue other total := by
  cases k with
  | all => exact Eq.trans h hperm.sum_eq
  | top kept => rwa [IsValue, ← choiceSums_of_perm hperm]
  | bottom kept => rwa [IsValue, ← choiceSums_of_perm hperm]

namespace Rolled

/-- Whatever a group of dice shows, in whatever order, counts as it should. -/
theorem counts_ofRolls {d : Dice} {values : List Nat} (h : d.Shows values) :
    Counts d values (ofRolls d values) := by
  have hpossible := possible_ofRolls h.length_eq h.isSide
  obtain ⟨hleast, hgreatest⟩ := hpossible.value_between
  exact {
    dice_eq := rfl
    rolls_eq_iff := fun l => eq_rolls_ofRolls_iff
    length_kept := length_kept hpossible.length_eq
    isValue := (isValue_rolls hpossible.length_eq).of_perm (perm_rolls_ofRolls d values)
    any_order := fun other hother => ofRolls_eq_of_perm hother
    value_lt := hgreatest.trans_lt d.greatest_lt
    least_le := hleast
    le_greatest := hgreatest }

end Rolled

/-! ### Rolling -/

/-- From every state the roller draws numbers that the dice can show, and what it makes of them counts
as it should. -/
def Roller.CountsBest {σ : Type} (roller : Roller σ) (d : Dice) : Prop :=
  ∀ s, ∃ values s', roller.draws d.sides d.count s = some (values, s') ∧ d.Shows values ∧
    roller.roll d s = some (Rolled.ofRolls d values, s') ∧
    Rolled.Counts d values (Rolled.ofRolls d values)

theorem Roller.Fair.countsBest {σ : Type} {roller : Roller σ} (h : roller.Fair) (d : Dice) :
    roller.CountsBest d := by
  intro s
  obtain ⟨values, s', hdraws, hlength, hsides⟩ :=
    gives_draws (h d.sides d.two_le_sides d.sides_lt) d.count s
  have hshows : d.Shows values := ⟨hlength, hsides⟩
  exact ⟨values, s', hdraws, hshows, bind_eq_some.mpr ⟨values, s', hdraws, rfl⟩,
    Rolled.counts_ofRolls hshows⟩

/-- Whatever the dice show, and in whatever order, the rolls are stored in ascending order, and as many
count as are kept: those with the greatest sum, with the least, or all of them. The value fits a word of
32 bits and lies in the range of the dice. So it is with every roller that keeps to the sides of the
dice. -/
theorem Rolled.value_best_choice (d : Dice) :
    (∀ values, d.Shows values → Counts d values (ofRolls d values)) ∧
    ∀ {σ : Type} (roller : Roller σ), roller.Fair → roller.CountsBest d :=
  ⟨fun _ h => counts_ofRolls h, fun _ h => h.countsBest d⟩

/-- Four dice show 5, 1, 6 and 4, of which the three highest count: no three of them make more than
15. -/
theorem Rolled.value_three_of_four : ∃ d : Dice, d.text = "4d6^3" ∧ d.Shows [5, 1, 6, 4] ∧
    (ofRolls d [5, 1, 6, 4]).value = 15 ∧ Counts d [5, 1, 6, 4] (ofRolls d [5, 1, 6, 4]) ∧
    IsGreatest (choiceSums [5, 1, 6, 4] 3) 15 ∧ Roller.highest.CountsBest d := by
  let d : Dice :=
    { count := 4, sides := 6, keep := .top 3, one_le_count := by decide, count_lt := by decide
      two_le_sides := by decide, sides_lt := by decide, one_le_kept := by decide
      kept_le_count := by decide }
  have hshows : d.Shows [5, 1, 6, 4] := ⟨rfl, by decide⟩
  have hrolls : (ofRolls d [5, 1, 6, 4]).rolls = [1, 4, 5, 6] :=
    (eq_rolls_ofRolls_iff.mpr ⟨by decide, by decide⟩).symm
  have hkeep : (ofRolls d [5, 1, 6, 4]).dice.keep = .top 3 := rfl
  have hvalue : (ofRolls d [5, 1, 6, 4]).value = 15 := by
    simp [value, kept, between, start, stop, hrolls, hkeep, Keep.start, Keep.stop]
  obtain ⟨hcounts, hrollers⟩ := value_best_choice d
  have hbest : IsGreatest (choiceSums [5, 1, 6, 4] 3) (ofRolls d [5, 1, 6, 4]).value :=
    (hcounts _ hshows).isValue
  rw [hvalue] at hbest
  exact ⟨d, by decide +kernel, hshows, hvalue, hcounts _ hshows, hbest,
    hrollers Roller.highest Roller.fair_highest⟩

end DiceTables
