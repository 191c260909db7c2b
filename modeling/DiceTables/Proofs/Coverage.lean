import DiceTables.Proofs.Domain
import DiceTables.Table.Coverage
import Mathlib.Algebra.BigOperators.Group.List.Basic

/-!
What it means that a table has no warnings. The scan moves a cursor over the ranges in ascending
order. If it has nothing to report, each range starts at the cursor and the last one ends with the
last value, so the ranges tile the values of the expression.
-/

namespace DiceTables

open Whole

/-- The ranges follow one another without a gap from one value up to just before another. -/
def Tiles : (first : Int) → List (Int × Int) → (stop : Int) → Prop
  | first, [], stop => first = stop
  | first, (lo, hi) :: rest, stop => lo = first ∧ lo ≤ hi ∧ Tiles (hi + 1) rest stop

/-- Number of values of a range. -/
def rangeWidth (r : Int × Int) : Int := r.2 - r.1 + 1

namespace Tiles

theorem sum_width : ∀ {ranges : List (Int × Int)} {first stop : Int}, Tiles first ranges stop →
    (ranges.map rangeWidth).sum = stop - first
  | [], first, stop, h => by
    obtain rfl : first = stop := h
    simp
  | (lo, hi) :: rest, first, stop, ⟨hlo, _, hrest⟩ => by
    rw [List.map_cons, List.sum_cons, hrest.sum_width, rangeWidth]
    omega

/-- A range starts where the widths of those before it end. -/
theorem first_eq : ∀ {ranges : List (Int × Int)} {first stop : Int}, Tiles first ranges stop →
    ∀ (i : Nat) (h : i < ranges.length),
      ranges[i].1 = first + ((ranges.take i).map rangeWidth).sum
  | (lo, hi) :: rest, first, stop, ⟨hlo, _, _⟩, 0, _ => by simpa using hlo
  | (lo, hi) :: rest, first, stop, ⟨hlo, _, hrest⟩, i + 1, h => by
    rw [List.getElem_cons_succ, hrest.first_eq i (by simpa using h), List.take_succ_cons,
      List.map_cons, List.sum_cons, rangeWidth]
    omega

end Tiles

namespace Table

theorem warnings_eq_nil_iff {t : Table} :
    t.warnings = [] ↔ t.totalWeight = t.domainSize ∧ scanRanges t.low t.high t.low t.ranges = [] := by
  rw [warnings, List.append_eq_nil_iff]
  simp

/-- The cursor of a scan never gets past the greatest number, so a table that covers it is said to
have a gap there. -/
theorem lt_greatest_of_scanRanges {low high : Int} : ∀ {ranges : List (Int × Int)} {cursor : Int},
    scanRanges low high cursor ranges = [] → cursor ≤ greatest → high < greatest
  | [], cursor, h, hc => by
    have hcursor : ¬cursor ≤ high := by
      intro hle
      simp [scanRanges, hle] at h
    omega
  | (lo, hi) :: rest, cursor, h, hc => by
    simp only [scanRanges] at h
    split at h
    · exact lt_greatest_of_scanRanges (List.append_eq_nil_iff.mp h).2 hc
    · refine lt_greatest_of_scanRanges (List.append_eq_nil_iff.mp h).2 ?_
      exact max_le hc (clamp_le_greatest _)

/-- A scan that finds nothing has gone over ranges that tile the values from the cursor on. -/
theorem tiles_of_scanRanges {low high : Int} (hleast : least ≤ low) (hhigh : high < greatest) :
    ∀ {ranges : List (Int × Int)} {cursor : Int}, (∀ r ∈ ranges, r.1 ≤ r.2) →
      cursor ≤ high + 1 → scanRanges low high cursor ranges = [] → Tiles cursor ranges (high + 1)
  | [], cursor, _, hc, h => by
    have hcursor : ¬cursor ≤ high := by
      intro hle
      simp [scanRanges, hle] at h
    show cursor = high + 1
    omega
  | (lo, hi) :: rest, cursor, hle, hc, h => by
    obtain ⟨hlohi, hle⟩ := List.forall_mem_cons.mp hle
    simp only at hlohi
    simp only [scanRanges] at h
    -- Nothing is wasted in either branch, so the range lies within the values.
    have hwasted : ¬(lo < low ∨ high < hi) := by
      intro hout
      rw [if_pos hout] at h
      split at h <;> cases h
    have hstart : max lo low = lo := max_eq_left (by omega)
    have hstop : min hi high = hi := min_eq_left (by omega)
    rw [hstart, hstop, if_neg (by omega), if_neg hwasted, List.nil_append] at h
    obtain ⟨hfound, hrest⟩ := List.append_eq_nil_iff.mp h
    have hlo : lo = cursor := by
      by_contra hne
      rcases Int.lt_or_gt_of_ne hne with hlt | hgt
      · rw [if_neg (by omega), if_pos hlt] at hfound
        cases hfound
      · rw [if_pos hgt] at hfound
        cases hfound
    have hnext : addClamped hi 1 = hi + 1 :=
      addClamped_of_fits ⟨by omega, by omega⟩
    rw [hnext, max_eq_right (by omega)] at hrest
    exact ⟨hlo, hlohi, tiles_of_scanRanges hleast hhigh hle (by omega) hrest⟩

/-- The first and the last number of the range of an outcome. -/
def rangeOf (e : Entry) : Int × Int := (e.lo, e.hi)

theorem perm_ranges (t : Table) : t.ranges.Perm (t.entries.map rangeOf) :=
  List.mergeSort_perm _ _

/-- The sorted ranges of a table without warnings tile the values of its expression, which end
before the greatest number. -/
theorem tiles_of_warnings_eq_nil {t : Table} (h : t.warnings = []) :
    t.high < greatest ∧ Tiles t.low t.ranges (t.high + 1) := by
  obtain ⟨hlow, hle, -⟩ := Expr.fits_of_domain t.domain_eq
  have hscan := (warnings_eq_nil_iff.mp h).2
  have hhigh := lt_greatest_of_scanRanges hscan hlow.2
  refine ⟨hhigh, tiles_of_scanRanges hlow.1 hhigh (fun r hr => ?_) (by omega) hscan⟩
  obtain ⟨e, -, rfl⟩ := List.mem_map.mp (t.perm_ranges.mem_iff.mp hr)
  exact e.lo_le_hi

end Table

end DiceTables
