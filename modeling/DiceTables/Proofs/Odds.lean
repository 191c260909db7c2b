import DiceTables.Proofs.Warnings
import Mathlib.Data.Int.Interval
import Mathlib.Data.Set.Card

/-!
How many values select each outcome. The running weight goes up by the weight of one outcome at a
time, so the values that select an outcome lie in one block, and the blocks follow one another from
the least value to the greatest in the order in which the outcomes are written. Where the weights
add up to the number of values, no value is left over: each outcome gets exactly as many of them as
its weight says. Values beyond either end select the outcome at that end.
-/

namespace DiceTables

open Whole

namespace Table

open Entry

/-- The first value of the block of an outcome, past the weights of the outcomes before it. -/
def blockStart (t : Table) (i : Nat) : Int := t.low + ((t.entries.take i).map Entry.weight).sum

/-- The values in the block of an outcome. -/
def block (t : Table) (i : Nat) : Set Int := {v | t.blockStart i ≤ v ∧ v < t.blockStart (i + 1)}

/-- The values of the expression that select the outcome with an index. -/
def selecting (t : Table) (i : Nat) : Set Int :=
  {v | (t.low ≤ v ∧ v ≤ t.high) ∧ t.indexFor v = i}

/-! ### Ends of the scan -/

/-- A position that the first weight reaches selects the first outcome. -/
theorem indexFrom_eq_zero {p running : Int} (hrunning : 0 ≤ running) (hp : p ≤ 0) :
    ∀ entries : List Entry, indexFrom p running entries = 0
  | [] => rfl
  | [_] => rfl
  | e :: e' :: rest => by
    have hsum : 0 ≤ addClamped running e.weight := by
      have hweight := e.weight_pos
      simp only [addClamped, clamp, least, greatest]
      omega
    simp only [indexFrom]
    rw [if_pos (by omega)]

/-- A position that no sum of weights reaches selects the last outcome. -/
theorem indexFrom_eq_last {p : Int} (hp : p ≤ greatest) {entries : List Entry} {running : Int}
    (hrunning : 0 ≤ running) (hlt : running + offset entries entries.length < p) :
    indexFrom p running entries = entries.length - 1 := by
  induction entries generalizing running with
  | nil => rfl
  | cons e rest ih =>
    cases rest with
    | nil => rfl
    | cons e' rest =>
      have hsum := addClamped_weight hrunning (hlt.le.trans hp)
      rw [List.length_cons, offset_cons_succ] at hlt
      have hwidth := e.width_pos
      have hrest : 0 ≤ offset (e' :: rest) (e' :: rest).length :=
        offset_mono (e' :: rest) (Nat.zero_le _)
      have hlater := @ih (running + e.width) (by omega) (by omega)
      simp only [indexFrom, hsum]
      rw [if_neg (by omega), hlater]
      simp

theorem position_le_zero {t : Table} {v : Int} (h : v < t.low) : t.position v ≤ 0 := by
  simp only [position, addClamped, subClamped, clamp, least, greatest]
  omega

/-- A value past the greatest one has a position past the number of values, clamped or not. -/
theorem lt_position {t : Table} {v : Int} (hsize : t.high - t.low + 1 < greatest) (h : t.high < v) :
    t.high - t.low + 1 < t.position v ∧ t.position v ≤ greatest := by
  obtain ⟨-, hle, -⟩ := Expr.fits_of_domain t.domain_eq
  simp only [position, addClamped, subClamped, clamp, least, greatest] at *
  omega

/-! ### Blocks -/

section

variable {t : Table} (hsize : t.high - t.low + 1 < greatest)
  (hweight : t.totalWeight = t.high - t.low + 1)

include hsize hweight

/-- Weights that add up to fewer than the greatest number are widths. -/
theorem countable_of_totalWeight : t.Countable := by
  rw [totalWeight_eq] at hweight
  refine ⟨?_, hsize.le⟩
  rw [offset_length]
  omega

theorem weight_eq_width_of_mem {e : Entry} (he : e ∈ t.entries) : e.weight = e.width := by
  have hcount := countable_of_totalWeight hsize hweight
  have hle := width_le_sum he
  rw [← offset_length, hcount.offset_eq] at hle
  exact weight_eq_width (hle.trans hcount.size_le)

theorem blockStart_eq (i : Nat) : t.blockStart i = t.low + offset t.entries i := by
  have hwidths : (t.entries.take i).map Entry.weight = (t.entries.take i).map width :=
    List.map_congr_left fun e he =>
      weight_eq_width_of_mem hsize hweight (List.mem_of_mem_take he)
  rw [blockStart, hwidths, offset]

/-- The values that select an outcome are those of its block. -/
theorem selecting_eq {i : Nat} (hi : i < t.entries.length) :
    t.selecting i = t.block i := by
  have hcount := countable_of_totalWeight hsize hweight
  have hfirst := offset_mono t.entries (Nat.zero_le i)
  have hlast := offset_mono t.entries (show i + 1 ≤ _ from hi)
  rw [offset_zero] at hfirst
  rw [hcount.offset_eq] at hlast
  refine Set.ext fun v => ?_
  show (t.low ≤ v ∧ v ≤ t.high) ∧ t.indexFor v = i ↔
    t.blockStart i ≤ v ∧ v < t.blockStart (i + 1)
  rw [blockStart_eq hsize hweight, blockStart_eq hsize hweight]
  constructor
  · rintro ⟨⟨hlow, hhigh⟩, hindex⟩
    obtain ⟨j, hj, hle, hlt⟩ := hcount.exists_index hlow hhigh
    have hj : j = i := (hcount.indexFor_eq hj hle hlt).symm.trans hindex
    rw [← hj]
    exact ⟨hle, hlt⟩
  · rintro ⟨hle, hlt⟩
    exact ⟨by omega, hcount.indexFor_eq hi hle hlt⟩

end

/-- The first outcome begins with the least value, and each further one where the block of the one
before it ends. -/
theorem blockStart_succ {t : Table} {i : Nat} (hi : i < t.entries.length) :
    t.blockStart (i + 1) = t.blockStart i + t.entries[i].weight := by
  rw [blockStart, blockStart, List.take_succ_eq_append_getElem hi, List.map_append, List.sum_append]
  simp [add_assoc]

theorem ncard_block {t : Table} {i : Nat} (hi : i < t.entries.length) :
    ((t.block i).ncard : Int) = t.entries[i].weight := by
  have hpos := t.entries[i].weight_pos
  have hfinset : t.block i = ↑(Finset.Ico (t.blockStart i) (t.blockStart (i + 1))) := by
    ext v
    simp [block]
  rw [hfinset, Set.ncard_coe_finset, blockStart_succ hi, Int.card_Ico_of_le _ _ (by omega)]
  omega

/-- Each outcome is selected by one block of as many values as its weight. The blocks follow one
another in the order of the outcomes, from the least value to the greatest, and what lies beyond them
selects the outcome next to it. If the ranges of the outcomes follow one another as well, a value
selects the one outcome whose range it lies in. -/
structure FollowsWeights (t : Table) : Prop where
  selecting_eq : ∀ i < t.entries.length, t.selecting i = t.block i
  card_selecting : ∀ (i : Nat) (hi : i < t.entries.length),
    ((t.selecting i).ncard : Int) = t.entries[i].weight
  first_block : t.blockStart 0 = t.low
  last_block : t.blockStart t.entries.length = t.high + 1
  below : ∀ v < t.low, t.indexFor v = 0
  above : ∀ v, t.high < v → t.indexFor v = t.entries.length - 1
  of_tiles : Tiles t.low (t.entries.map rangeOf) (t.high + 1) → ∀ v, t.low ≤ v → v ≤ t.high →
    (t.entryFor v).Contains v ∧
      ∀ (i : Nat) (hi : i < t.entries.length), t.entries[i].Contains v → t.indexFor v = i

/-- Where ranges follow one another, they are the blocks of their outcomes. -/
theorem contains_iff_of_tiles {t : Table} {stop : Int}
    (htiles : Tiles t.low (t.entries.map rangeOf) stop) {i : Nat} (hi : i < t.entries.length)
    {v : Int} : t.entries[i].Contains v ↔
      t.low + offset t.entries i ≤ v ∧ v < t.low + offset t.entries (i + 1) := by
  have hlo := htiles.first_eq i (by simpa using hi)
  rw [← List.map_take, ← map_width] at hlo
  have hlo : t.entries[i].lo = t.low + offset t.entries i := by simpa [rangeOf, offset] using hlo
  have hnext := offset_succ hi
  rw [width] at hnext
  unfold Entry.Contains
  omega

/-- Rolls follow the weights, in every table whose weights add up to the number of values. -/
theorem rolls_follow_weights {t : Table} (hsize : t.high - t.low + 1 < greatest)
    (hweight : t.totalWeight = t.high - t.low + 1) : t.FollowsWeights := by
  have hcount := countable_of_totalWeight hsize hweight
  constructor
  case selecting_eq =>
    intro i hi
    exact selecting_eq hsize hweight hi
  case card_selecting =>
    intro i hi
    rw [selecting_eq hsize hweight hi, ncard_block hi]
  case first_block =>
    simp [blockStart]
  case last_block =>
    rw [blockStart_eq hsize hweight, hcount.offset_eq]
    omega
  case below =>
    intro v hv
    exact indexFrom_eq_zero le_rfl (position_le_zero hv) t.entries
  case above =>
    intro v hv
    obtain ⟨hlt, hle⟩ := lt_position hsize hv
    refine indexFrom_eq_last hle le_rfl ?_
    rw [hcount.offset_eq]
    omega
  case of_tiles =>
    intro htiles v hlow hhigh
    obtain ⟨i, hi, hle, hlt⟩ := hcount.exists_index hlow hhigh
    constructor
    · rw [hcount.entryFor_eq hi hle hlt]
      exact (contains_iff_of_tiles htiles hi).mpr ⟨hle, hlt⟩
    · intro j hj hcontains
      obtain ⟨hle, hlt⟩ := (contains_iff_of_tiles htiles hj).mp hcontains
      exact hcount.indexFor_eq hj hle hlt

/-- Blocks of five, five and one value, which are the ranges as they are written. -/
theorem rolls_follow_weights_encounter :
    ∃ t, ofText "2d6 Encounter\n2-6. Wolves\n7-11. Bandits\n12. A dragon".toList {} = .ok t ∧
      t.high - t.low + 1 < greatest ∧ t.totalWeight = t.high - t.low + 1 ∧
      Tiles t.low (t.entries.map rangeOf) (t.high + 1) ∧ t.FollowsWeights := by
  have hfacts : (ofText "2d6 Encounter\n2-6. Wolves\n7-11. Bandits\n12. A dragon".toList
      {}).toOption.any (fun t => t.low = 2 ∧ t.high = 12 ∧ t.totalWeight = 11 ∧
        t.entries.map rangeOf = [(2, 6), (7, 11), (12, 12)]) = true := by decide +kernel
  obtain ⟨t, hbuilt, hfacts⟩ := (Option.any_eq_true _ _).mp hfacts
  obtain ⟨hlow, hhigh, htotal, hentries⟩ := of_decide_eq_true hfacts
  have hsize : t.high - t.low + 1 < greatest := by
    rw [hhigh, hlow]
    decide
  have hweight : t.totalWeight = t.high - t.low + 1 := by omega
  have htiles : Tiles t.low (t.entries.map rangeOf) (t.high + 1) := by
    rw [hentries, hlow, hhigh]
    simp [Tiles]
  exact ⟨t, toOption_eq_some.mp hbuilt, hsize, hweight, htiles, rolls_follow_weights hsize hweight⟩

end Table

end DiceTables
