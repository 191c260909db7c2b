import DiceTables.Proofs.Building
import DiceTables.Proofs.Coverage
import Mathlib.Algebra.Order.BigOperators.Group.List

/-!
Which outcome a value selects. Coverage is checked on the ranges in ascending order, while a value is
looked up by adding weights in the order in which the outcomes are written. A table without warnings
is one whose sorted ranges tile the values of its expression. In such a table each outcome gets as
many positions as its range is wide, so a value selects an outcome whose range it lies in, for all
values at once, exactly when the outcomes are written in ascending order.
-/

namespace DiceTables

open Whole

/-! ### Outcomes and their widths -/

namespace Entry

/-- Number of values in the range, however large. -/
def width (e : Entry) : Int := e.hi - e.lo + 1

/-- The value lies in the range of the outcome. -/
def Contains (e : Entry) (v : Int) : Prop := e.lo ≤ v ∧ v ≤ e.hi

theorem width_pos (e : Entry) : 0 < e.width := by
  have := e.lo_le_hi
  unfold width
  omega

/-- A weight is the width of the range, as far as it can be counted with 64 bits. -/
theorem weight_eq_min (e : Entry) : e.weight = min e.width greatest := by
  have hwidth := e.width_pos
  simp only [weight, width, addClamped, subClamped, clamp, least, greatest] at *
  omega

theorem weight_eq_width {e : Entry} (h : e.width ≤ greatest) : e.weight = e.width := by
  rw [weight_eq_min, min_eq_left h]

theorem weight_pos (e : Entry) : 0 < e.weight := by
  rw [weight_eq_min]
  exact lt_min e.width_pos (by decide)

theorem width_le_sum {entries : List Entry} {e : Entry} (he : e ∈ entries) :
    e.width ≤ (entries.map width).sum := by
  refine List.single_le_sum (fun w hw => ?_) _ (List.mem_map_of_mem he)
  obtain ⟨e', -, rfl⟩ := List.mem_map.mp hw
  exact e'.width_pos.le

/-- Number of positions before the outcome with an index. -/
def offset (entries : List Entry) (i : Nat) : Int := ((entries.take i).map width).sum

@[simp] theorem offset_zero (entries : List Entry) : offset entries 0 = 0 := rfl

@[simp] theorem offset_nil (i : Nat) : offset [] i = 0 := by simp [offset]

@[simp] theorem offset_cons_succ (e : Entry) (entries : List Entry) (i : Nat) :
    offset (e :: entries) (i + 1) = e.width + offset entries i := by simp [offset]

theorem offset_length (entries : List Entry) :
    offset entries entries.length = (entries.map width).sum := by
  rw [offset, List.take_length]

theorem offset_succ : ∀ {entries : List Entry} {i : Nat} (h : i < entries.length),
    offset entries (i + 1) = offset entries i + entries[i].width
  | e :: entries, 0, _ => by simp
  | e :: entries, i + 1, h => by
    have hi : i < entries.length := by simpa using h
    have ih := offset_succ hi
    simp only [offset_cons_succ, List.getElem_cons_succ, ih]
    omega

theorem offset_mono (entries : List Entry) {i j : Nat} (h : i ≤ j) :
    offset entries i ≤ offset entries j := by
  refine List.Sublist.sum_le_sum ((List.take_sublist_take_left h).map width) fun w hw => ?_
  obtain ⟨e, -, rfl⟩ := List.mem_map.mp hw
  exact e.width_pos.le

/-- The positions of the outcomes leave out none. -/
theorem exists_offset : ∀ {entries : List Entry} {p : Int}, 0 < p →
    p ≤ offset entries entries.length →
    ∃ i, i < entries.length ∧ offset entries i < p ∧ p ≤ offset entries (i + 1)
  | [], p, hpos, hle => by
    rw [offset_nil] at hle
    omega
  | e :: entries, p, hpos, hle => by
    by_cases hp : p ≤ e.width
    · exact ⟨0, by simp, by simpa using hpos, by simpa using hp⟩
    · rw [List.length_cons, offset_cons_succ] at hle
      have hpos : 0 < p - e.width := by omega
      have hle : p - e.width ≤ offset entries entries.length := by omega
      obtain ⟨i, hi, hlt, hle⟩ := exists_offset hpos hle
      refine ⟨i + 1, by simpa using hi, ?_, ?_⟩ <;> rw [offset_cons_succ] <;> omega

/-- A weight is added as the width that it is, as long as no sum is clamped. -/
theorem addClamped_weight {e : Entry} {rest : List Entry} {running : Int} (hrunning : 0 ≤ running)
    (hfits : running + offset (e :: rest) (e :: rest).length ≤ greatest) :
    addClamped running e.weight = running + e.width := by
  rw [List.length_cons, offset_cons_succ] at hfits
  have hwidth := e.width_pos
  have hrest : 0 ≤ offset rest rest.length := offset_mono rest (Nat.zero_le _)
  have hweight : e.weight = e.width := weight_eq_width (by omega)
  rw [hweight]
  exact addClamped_of_fits (.of_nonneg (by omega) (by omega))

end Entry

/-! ### Looking up a position -/

namespace Table

open Entry

/-- A position selects the outcome it belongs to, as long as no sum of weights is clamped. -/
theorem indexFrom_eq {p : Int} : ∀ {entries : List Entry} {running : Int} {i : Nat},
    i < entries.length → 0 ≤ running → running + offset entries entries.length ≤ greatest →
    running + offset entries i < p → p ≤ running + offset entries (i + 1) →
    indexFrom p running entries = i
  | [], _, _, hi, _, _, _, _ => by simp at hi
  | [e], _, i, hi, _, _, _, _ => by
    obtain rfl : i = 0 := by simpa using hi
    rfl
  | e :: e' :: rest, running, i, hi, hrunning, hfits, hlt, hle => by
    have hsum := addClamped_weight hrunning hfits
    rw [List.length_cons, offset_cons_succ] at hfits
    have hwidth := e.width_pos
    simp only [indexFrom, hsum]
    cases i with
    | zero =>
      rw [zero_add, ← Nat.zero_add 1, offset_cons_succ, offset_zero] at hle
      rw [if_pos (by omega)]
    | succ i =>
      rw [offset_cons_succ] at hlt hle
      have hmono := offset_mono (e' :: rest) (Nat.zero_le i)
      rw [offset_zero] at hmono
      rw [if_neg (by omega), indexFrom_eq (by simpa using hi) (by omega) (by omega) (by omega)
        (by omega)]

/-- The outcomes have as many positions as the expression has values, and these can be counted with
64 bits. -/
structure Countable (t : Table) : Prop where
  offset_eq : offset t.entries t.entries.length = t.high - t.low + 1
  size_le : t.high - t.low + 1 ≤ greatest

/-- The values that select an outcome follow those that select the outcomes before it. -/
theorem Countable.indexFor_eq {t : Table} (h : t.Countable) {i : Nat} (hi : i < t.entries.length)
    {v : Int} (hlow : t.low + offset t.entries i ≤ v)
    (hhigh : v < t.low + offset t.entries (i + 1)) : t.indexFor v = i := by
  have hfirst := offset_mono t.entries (Nat.zero_le i)
  have hlast := offset_mono t.entries (show i + 1 ≤ _ from hi)
  rw [offset_zero] at hfirst
  rw [h.offset_eq] at hlast
  have hsize := h.size_le
  have hposition : t.position v = v - t.low + 1 := by
    have hdiff : Fits (v - t.low) := .of_nonneg (by omega) (by omega)
    rw [position, subClamped_of_fits hdiff]
    exact addClamped_of_fits (.of_nonneg (by omega) (by omega))
  rw [indexFor, hposition]
  exact indexFrom_eq hi le_rfl (by rw [h.offset_eq]; omega) (by omega) (by omega)

theorem entryFor_eq_getElem {t : Table} {v : Int} {i : Nat} (hi : i < t.entries.length)
    (h : t.indexFor v = i) : t.entryFor v = t.entries[i] := by
  simp only [entryFor, List.get_eq_getElem, h]

theorem Countable.entryFor_eq {t : Table} (h : t.Countable) {i : Nat} (hi : i < t.entries.length)
    {v : Int} (hlow : t.low + offset t.entries i ≤ v)
    (hhigh : v < t.low + offset t.entries (i + 1)) : t.entryFor v = t.entries[i] :=
  entryFor_eq_getElem hi (h.indexFor_eq hi hlow hhigh)

/-- Every value of the expression belongs to some outcome. -/
theorem Countable.exists_index {t : Table} (h : t.Countable) {v : Int} (hlow : t.low ≤ v)
    (hhigh : v ≤ t.high) : ∃ i, i < t.entries.length ∧ t.low + offset t.entries i ≤ v ∧
      v < t.low + offset t.entries (i + 1) := by
  have hpos : 0 < v - t.low + 1 := by omega
  have hle : v - t.low + 1 ≤ offset t.entries t.entries.length := by
    rw [h.offset_eq]
    omega
  obtain ⟨i, hi, hlt, hle⟩ := exists_offset hpos hle
  exact ⟨i, hi, by omega, by omega⟩

/-! ### Tables without warnings -/

theorem map_width (entries : List Entry) :
    entries.map width = (entries.map rangeOf).map rangeWidth := by
  rw [List.map_map]
  rfl

/-- The ranges of a table without warnings are counted with 64 bits: numerals start at zero, and
bullets are as many as there are lines. -/
theorem countable_of_warnings_eq_nil {t : Table}
    (hkind : (∀ e ∈ t.entries, e.FromNumerals) ∨ ∀ e ∈ t.entries, e.IsSingle)
    (hlen : (t.entries.length : Int) ≤ greatest) (h : t.warnings = []) : t.Countable := by
  obtain ⟨hhigh, htiles⟩ := tiles_of_warnings_eq_nil h
  have hsum : offset t.entries t.entries.length = t.high - t.low + 1 := by
    rw [offset_length, map_width, ← (t.perm_ranges.map rangeWidth).sum_eq, htiles.sum_width]
    omega
  refine ⟨hsum, ?_⟩
  rcases hkind with hnumerals | hsingle
  · cases hranges : t.ranges with
    | nil =>
      have hnil := t.perm_ranges
      rw [hranges, List.nil_perm, List.map_eq_nil_iff] at hnil
      exact absurd hnil t.entries_ne_nil
    | cons r rest =>
      have hmem : r ∈ t.entries.map rangeOf := t.perm_ranges.mem_iff.mp (hranges ▸ List.mem_cons_self)
      obtain ⟨e, he, rfl⟩ := List.mem_map.mp hmem
      rw [hranges] at htiles
      have hlow : e.lo = t.low := htiles.1
      have hnonneg := (hnumerals e he).1
      omega
  · have hone : ∀ w ∈ t.entries.map width, w = 1 := by
      intro w hw
      obtain ⟨e, he, rfl⟩ := List.mem_map.mp hw
      have hsame : e.lo = e.hi := hsingle e he
      rw [width, hsame]
      omega
    have hcount := List.sum_eq_card_nsmul _ 1 hone
    rw [← offset_length, hsum, List.length_map, nsmul_eq_mul, mul_one] at hcount
    exact hcount.trans_le hlen

/-- The outcomes are written in ascending order of their ranges. -/
def Ascending (t : Table) : Prop := t.entries.Pairwise fun a b => a.hi < b.lo

/-- The ranges of ascending outcomes are sorted already. -/
theorem Ascending.ranges_eq {t : Table} (h : t.Ascending) : t.ranges = t.entries.map rangeOf := by
  refine List.mergeSort_of_pairwise (List.pairwise_map.mpr (h.imp fun {a b} hab => ?_))
  have hlt : a.lo < b.lo := a.lo_le_hi.trans_lt hab
  simp [rangeLe, hlt]

/-- Outcomes whose ranges start where their positions do are ascending. -/
theorem ascending_of_lo_eq {t : Table}
    (h : ∀ (i : Nat) (hi : i < t.entries.length), t.entries[i].lo = t.low + offset t.entries i) :
    t.Ascending := by
  refine List.pairwise_iff_getElem.mpr fun i j hi hj hij => ?_
  have hnext := offset_succ hi
  have hmono := offset_mono t.entries (show i + 1 ≤ j from hij)
  rw [width] at hnext
  rw [h j hj]
  have := h i hi
  omega

/-- In a table without warnings every value selects an outcome whose range it lies in, exactly when
the outcomes are written in ascending order. The outcomes of a table are a list in memory, so there
are no more of them than 64 bits can count. -/
theorem contains_entryFor_iff_ascending {t : Table}
    (hbuilt : (∃ header body limits, build header body limits = .ok t) ∨
      ∃ s limits, ofText s limits = .ok t)
    (hlen : (t.entries.length : Int) ≤ greatest) (h : t.warnings = []) :
    (∀ v, t.low ≤ v → v ≤ t.high → (t.entryFor v).Contains v) ↔ t.Ascending := by
  have hkind : (∀ e ∈ t.entries, e.FromNumerals) ∨ ∀ e ∈ t.entries, e.IsSingle := by
    obtain ⟨header, body, limits, hbuilt⟩ :
        ∃ header body limits, build header body limits = .ok t := by
      rcases hbuilt with hbuilt | ⟨s, limits, hbuilt⟩
      · exact hbuilt
      · obtain ⟨header, body, hbuilt⟩ := ofText_eq_ok hbuilt
        exact ⟨header, body, limits, hbuilt⟩
    obtain ⟨-, -, -, -, hentries, -, -⟩ := build_eq_ok hbuilt
    rw [hentries]
    exact ofLines_cases t.low body
  have hcount := countable_of_warnings_eq_nil hkind hlen h
  constructor
  · intro hall
    refine ascending_of_lo_eq fun i hi => ?_
    have hfirst := offset_mono t.entries (Nat.zero_le i)
    have hlast := offset_mono t.entries (show i + 1 ≤ _ from hi)
    have hnext := offset_succ hi
    have hwidth := t.entries[i].width_pos
    rw [offset_zero] at hfirst
    rw [hcount.offset_eq] at hlast
    -- The first and the last value that select the outcome are the ends of its range.
    have hlow := hall (t.low + offset t.entries i) (by omega) (by omega)
    have hhigh := hall (t.low + offset t.entries (i + 1) - 1) (by omega) (by omega)
    rw [hcount.entryFor_eq hi (by omega) (by omega)] at hlow hhigh
    have hle := hlow.1
    have hge := hhigh.2
    rw [width] at hnext
    omega
  · intro hasc v hv hv'
    obtain ⟨-, htiles⟩ := tiles_of_warnings_eq_nil h
    rw [hasc.ranges_eq] at htiles
    obtain ⟨i, hi, hle, hlt⟩ := hcount.exists_index hv hv'
    rw [hcount.entryFor_eq hi hle hlt]
    have hlo := htiles.first_eq i (by simpa using hi)
    rw [← List.map_take, ← map_width] at hlo
    have hlo : t.entries[i].lo = t.low + offset t.entries i := by simpa [rangeOf, offset] using hlo
    have hnext := offset_succ hi
    rw [width] at hnext
    exact ⟨by omega, by omega⟩

/-- Written the other way round, the lower half of a die selects the outcome of the upper half, and
nothing warns of it. -/
theorem lower_half_selects_upper : ∃ t, ofText "d6\n4-6 B\n1-3 A".toList {} = .ok t ∧
    t.warnings = [] ∧ t.low ≤ 1 ∧ 1 ≤ t.high ∧ ¬(t.entryFor 1).Contains 1 := by
  have hfacts : (ofText "d6\n4-6 B\n1-3 A".toList {}).toOption.any (fun t =>
      t.low = 1 ∧ t.high = 6 ∧ t.entries.map rangeOf = [(4, 6), (1, 3)] ∧
      t.totalWeight = t.domainSize ∧ (t.entryFor 1).lo = 4) = true := by decide +kernel
  obtain ⟨t, hbuilt, hfacts⟩ := (Option.any_eq_true _ _).mp hfacts
  obtain ⟨hlow, hhigh, hentries, hweight, hselected⟩ := of_decide_eq_true hfacts
  have hranges : t.ranges = [(1, 3), (4, 6)] := by
    show (t.entries.map rangeOf).mergeSort rangeLe = _
    rw [hentries]
    simp [List.mergeSort, List.MergeSort.Internal.splitInTwo, rangeLe]
  refine ⟨t, toOption_eq_some.mp hbuilt, ?_, by omega, by omega, ?_⟩
  · rw [warnings_eq_nil_iff, hranges, hlow, hhigh]
    exact ⟨hweight, by decide⟩
  · rw [Entry.Contains, hselected]
    omega

/-- A table written in ascending order. -/
theorem ascending_encounter : ∃ t, ofText "2d4\n2-5 Wolves\n6-8 Bandits".toList {} = .ok t ∧
    t.warnings = [] ∧ ((∀ v, t.low ≤ v → v ≤ t.high → (t.entryFor v).Contains v) ↔ t.Ascending) ∧
    t.Ascending := by
  have hfacts : (ofText "2d4\n2-5 Wolves\n6-8 Bandits".toList {}).toOption.any (fun t =>
      t.low = 2 ∧ t.high = 8 ∧ t.entries.map rangeOf = [(2, 5), (6, 8)] ∧
      t.totalWeight = t.domainSize) = true := by decide +kernel
  obtain ⟨t, hbuilt, hfacts⟩ := (Option.any_eq_true _ _).mp hfacts
  obtain ⟨hlow, hhigh, hentries, hweight⟩ := of_decide_eq_true hfacts
  have hbuilt := toOption_eq_some.mp hbuilt
  have hasc : t.Ascending := by
    have hpairs : (t.entries.map rangeOf).Pairwise fun a b => a.2 < b.1 := by
      rw [hentries]
      simp
    exact List.pairwise_map.mp hpairs
  have hlength : t.entries.length = 2 := by
    simpa using congrArg List.length hentries
  have hwarnings : t.warnings = [] := by
    rw [warnings_eq_nil_iff, hasc.ranges_eq, hentries, hlow, hhigh]
    exact ⟨hweight, by decide⟩
  refine ⟨t, hbuilt, hwarnings, ?_, hasc⟩
  exact contains_entryFor_iff_ascending (.inr ⟨_, _, hbuilt⟩) (by rw [hlength]; decide) hwarnings

end Table

end DiceTables
