import DiceTables.Proofs.Selection

/-!
What the warnings of a table say. Besides the sum of the weights, they come from one scan over the
ranges of the outcomes in ascending order. The invariant of the scan is that everything below the
cursor has been dealt with: no gap is left there, and a value below it that one of the ranges still
to come holds is covered twice. Hence the gaps that are reported are the longest runs of values that
no outcome covers, the overlaps hold the values that are covered at least twice, and a table has no
warnings exactly if its outcomes tile the values of its expression.
-/

namespace DiceTables

open Whole

/-! ### Kinds of warnings -/

namespace Warning

/-- The values of a gap. -/
def gap? : Warning → Option (Int × Int)
  | gap lo hi => some (lo, hi)
  | _ => none

/-- The range of an outcome that is partly wasted. -/
def outOfDomain? : Warning → Option (Int × Int)
  | outOfDomain lo hi => some (lo, hi)
  | _ => none

theorem mem_filterMap_gap? {found : List Warning} {a b : Int} :
    (a, b) ∈ found.filterMap gap? ↔ .gap a b ∈ found := by
  rw [List.mem_filterMap]
  constructor
  · rintro ⟨_ | _ | ⟨lo, hi⟩ | _, hx, ⟨⟩⟩
    exact hx
  · intro h
    exact ⟨.gap a b, h, rfl⟩

end Warning

/-! ### Covered values -/

/-- Number of ranges that hold a value. -/
def rangeCount (ranges : List (Int × Int)) (v : Int) : Nat :=
  ranges.countP fun r => r.1 ≤ v ∧ v ≤ r.2

theorem rangeCount_cons (lo hi : Int) (ranges : List (Int × Int)) (v : Int) :
    rangeCount ((lo, hi) :: ranges) v =
      rangeCount ranges v + if lo ≤ v ∧ v ≤ hi then 1 else 0 := by
  simp [rangeCount, List.countP_cons]

/-- A value below all ranges is not covered. -/
theorem rangeCount_of_lt {ranges : List (Int × Int)} {lo v : Int} (hle : ∀ r ∈ ranges, lo ≤ r.1)
    (h : v < lo) : rangeCount ranges v = 0 := by
  rw [rangeCount, List.countP_eq_zero]
  intro r hr
  have := hle r hr
  simp only [decide_eq_true_eq]
  omega

/-- A longest run of values between two others of which none is covered. -/
structure IsGap (count : Int → Nat) (first last a b : Int) : Prop where
  le : a ≤ b
  first_le : first ≤ a
  le_last : b ≤ last
  uncovered : ∀ v, a ≤ v → v ≤ b → count v = 0
  before : first < a → 0 < count (a - 1)
  after : b < last → 0 < count (b + 1)

namespace IsGap

variable {count count' : Int → Nat} {first last a b a' b' : Int}

/-- Only the values in between matter. -/
theorem congr (h : IsGap count first last a b)
    (heq : ∀ v, first ≤ v → v ≤ last → count' v = count v) : IsGap count' first last a b := by
  obtain ⟨hle, hfirst, hlast, huncovered, hbefore, hafter⟩ := h
  refine ⟨hle, hfirst, hlast, fun v hv hv' => ?_, fun hlt => ?_, fun hlt => ?_⟩
  · rw [heq v (by omega) (by omega)]
    exact huncovered v hv hv'
  · rw [heq (a - 1) (by omega) (by omega)]
    exact hbefore hlt
  · rw [heq (b + 1) (by omega) (by omega)]
    exact hafter hlt

/-- Two gaps with a common value are the same. -/
theorem eq_of_mem (h : IsGap count first last a b) (h' : IsGap count first last a' b') {v : Int}
    (hv : a ≤ v ∧ v ≤ b) (hv' : a' ≤ v ∧ v ≤ b') : a = a' ∧ b = b' := by
  -- A gap that began or ended within the other would have a covered value next to it.
  have hstart : ∀ {a b a' b' : Int}, IsGap count first last a b → IsGap count first last a' b' →
      v ≤ b → a' ≤ v → a' ≤ a := by
    intro a b a' b' h h' hv hv'
    by_contra hlt
    have hcovered := h'.before (by have := h.first_le; omega)
    have huncovered := h.uncovered (a' - 1) (by omega) (by omega)
    omega
  have hstop : ∀ {a b a' b' : Int}, IsGap count first last a b → IsGap count first last a' b' →
      a ≤ v → v ≤ b' → b ≤ b' := by
    intro a b a' b' h h' hv hv'
    by_contra hlt
    have hcovered := h'.after (by have := h.le_last; omega)
    have huncovered := h.uncovered (b' + 1) (by omega) (by omega)
    omega
  exact ⟨le_antisymm (hstart h' h hv'.2 hv.1) (hstart h h' hv.2 hv'.1),
    le_antisymm (hstop h h' hv.1 hv'.2) (hstop h' h hv'.1 hv.2)⟩

end IsGap

/-! ### One range of the scan -/

namespace Table

variable {low high cursor : Int}

/-- What is reported of a range by itself. -/
def wasted (low high lo hi : Int) : List Warning :=
  if lo < low ∨ high < hi then [.outOfDomain lo hi] else []

/-- What is reported of a range that the scan meets at its cursor. -/
def met (cursor start stop : Int) : List Warning :=
  if cursor < start then [.gap cursor (start - 1)]
  else if start < cursor then [.overlap start (min stop (cursor - 1))]
  else []

/-- A range without values of the expression leaves the cursor where it is. -/
theorem scanRanges_outside {lo hi : Int} (rest : List (Int × Int))
    (h : min hi high < max lo low) : scanRanges low high cursor ((lo, hi) :: rest) =
      wasted low high lo hi ++ scanRanges low high cursor rest := by
  rw [scanRanges, if_pos h, wasted]

/-- A range with values of the expression moves the cursor past them. -/
theorem scanRanges_inside (hleast : least ≤ low) {lo hi : Int} (hstop : min hi high < greatest)
    (rest : List (Int × Int)) (hlow : low ≤ cursor) (hcursor : cursor ≤ greatest)
    (h : max lo low ≤ min hi high) : scanRanges low high cursor ((lo, hi) :: rest) =
      wasted low high lo hi ++ met cursor (max lo low) (min hi high) ++
        scanRanges low high (max cursor (min hi high + 1)) rest := by
  have hnext : addClamped (min hi high) 1 = min hi high + 1 :=
    addClamped_of_fits ⟨by omega, by omega⟩
  rw [scanRanges, if_neg (by omega), hnext, ← wasted, met]
  split
  · next hgap =>
    have hlast : subClamped (max lo low) 1 = max lo low - 1 :=
      subClamped_of_fits ⟨by omega, by omega⟩
    rw [hlast]
  · split
    · next hoverlap =>
      have hlast : subClamped cursor 1 = cursor - 1 := subClamped_of_fits ⟨by omega, by omega⟩
      rw [hlast]
    · rfl

theorem mem_wasted {lo hi : Int} {x : Warning} :
    x ∈ wasted low high lo hi ↔ (lo < low ∨ high < hi) ∧ x = .outOfDomain lo hi := by
  unfold wasted
  split <;> simp_all

theorem mem_met {start stop : Int} {x : Warning} : x ∈ met cursor start stop ↔
    cursor < start ∧ x = .gap cursor (start - 1) ∨
      start < cursor ∧ x = .overlap start (min stop (cursor - 1)) := by
  unfold met
  split
  · next hgap => simp [hgap, hgap.not_gt]
  · next hgap =>
    split
    · next hoverlap => simp [hgap, hoverlap]
    · next hoverlap => simp [hgap, hoverlap]

/-- The values that are reported as covered twice: those of the range that lie below the cursor, and
those that are reported later on. -/
theorem exists_overlap_iff {lo hi start stop v : Int} {found : List Warning} :
    (∃ a b, .overlap a b ∈ wasted low high lo hi ++ met cursor start stop ++ found ∧
        a ≤ v ∧ v ≤ b) ↔
      (start ≤ v ∧ v ≤ stop ∧ v < cursor) ∨ ∃ a b, .overlap a b ∈ found ∧ a ≤ v ∧ v ≤ b := by
  simp only [List.mem_append, mem_wasted, mem_met]
  constructor
  · rintro ⟨a, b, (⟨-, ⟨⟩⟩ | ⟨-, ⟨⟩⟩ | ⟨hlt, ⟨⟩⟩) | hoverlap, hab⟩
    · exact .inl (by omega)
    · exact .inr ⟨a, b, hoverlap, hab⟩
  · rintro (hv | ⟨a, b, hoverlap, hab⟩)
    · exact ⟨_, _, .inl (.inr (.inr ⟨by omega, rfl⟩)), by omega⟩
    · exact ⟨a, b, .inr hoverlap, hab⟩

section

variable {lo hi : Int} {rest : List (Int × Int)}

/-- Between the bounds a range counts by its values there. -/
theorem rangeCount_cons_of_between {v : Int} (hv : low ≤ v) (hv' : v ≤ high) :
    rangeCount ((lo, hi) :: rest) v = rangeCount rest v +
      if max lo low ≤ v ∧ v ≤ min hi high then 1 else 0 := by
  rw [rangeCount_cons]
  congr 2
  simp only [eq_iff_iff]
  omega

/-- What lies between the cursor and the next range is a gap. -/
theorem isGap_before (hin : max lo low ≤ min hi high) (hsorted : ∀ r ∈ rest, lo ≤ r.1)
    (hlow : low ≤ cursor) (hlt : cursor < max lo low) :
    IsGap (rangeCount ((lo, hi) :: rest)) cursor high cursor (max lo low - 1) where
  le := by omega
  first_le := le_rfl
  le_last := by omega
  uncovered v hv hv' := by
    rw [rangeCount_cons, rangeCount_of_lt hsorted (by omega), if_neg (by omega)]
  before := by omega
  after _ := by
    rw [sub_add_cancel, rangeCount_cons, if_pos ⟨le_max_left _ _, by omega⟩]
    omega

/-- A gap past a range is left by this range too, which may be what ends before it. -/
theorem isGap_later {a b : Int} (hin : max lo low ≤ min hi high) (hlow : low ≤ cursor)
    (h : IsGap (rangeCount rest) (max cursor (min hi high + 1)) high a b) :
    IsGap (rangeCount ((lo, hi) :: rest)) cursor high a b := by
  obtain ⟨hle, hfirst, hlast, huncovered, hbefore, hafter⟩ := h
  have hcount : ∀ v, low ≤ v → v ≤ high → rangeCount ((lo, hi) :: rest) v =
      rangeCount rest v + if max lo low ≤ v ∧ v ≤ min hi high then 1 else 0 :=
    fun v hv hv' => rangeCount_cons_of_between hv hv'
  refine ⟨hle, by omega, hlast, fun v hv hv' => ?_, fun hlt => ?_, fun hlt => ?_⟩
  · rw [hcount v (by omega) (by omega), huncovered v hv hv', if_neg (by omega)]
  · rw [hcount _ (by omega) (by omega)]
    by_cases hcursor : max cursor (min hi high + 1) < a
    · have := hbefore hcursor
      omega
    · rw [if_pos (by omega)]
      omega
  · rw [hcount _ (by omega) (by omega)]
    have := hafter hlt
    omega

theorem filterMap_gap?_wasted (lo hi : Int) :
    (wasted low high lo hi).filterMap Warning.gap? = [] := by
  unfold wasted
  split <;> rfl

theorem filterMap_outOfDomain?_wasted (lo hi : Int) (rest : List (Int × Int)) :
    (wasted low high lo hi).filterMap Warning.outOfDomain? ++
        rest.filter (fun r => r.1 < low ∨ high < r.2) =
      ((lo, hi) :: rest).filter fun r => r.1 < low ∨ high < r.2 := by
  by_cases h : lo < low ∨ high < hi
  · rw [wasted, if_pos h, List.filter_cons_of_pos (by simpa using h)]
    rfl
  · rw [wasted, if_neg h, List.filter_cons_of_neg (by simpa using h)]
    rfl

end

/-! ### The whole scan -/

/-- What has been reported of ranges that are scanned from a cursor on. A value below the cursor
counts as covered once already. -/
structure Reports (low high cursor : Int) (ranges : List (Int × Int)) (found : List Warning) :
    Prop where
  wasted_eq : found.filterMap Warning.outOfDomain? =
    ranges.filter fun r => r.1 < low ∨ high < r.2
  isGap : ∀ a b, .gap a b ∈ found → IsGap (rangeCount ranges) cursor high a b
  exists_gap : ∀ v, cursor ≤ v → v ≤ high → rangeCount ranges v = 0 →
    ∃ a b, .gap a b ∈ found ∧ a ≤ v ∧ v ≤ b
  ascending : (found.filterMap Warning.gap?).Pairwise fun g g' => g.2 < g'.1
  overlap_le : ∀ a b, .overlap a b ∈ found → a ≤ b
  overlap_iff : ∀ v, (∃ a b, .overlap a b ∈ found ∧ a ≤ v ∧ v ≤ b) ↔
    low ≤ v ∧ v ≤ high ∧
      (2 ≤ rangeCount ranges v ∨ v < cursor ∧ 0 < rangeCount ranges v)
  no_mismatch : ∀ domain total, .weightMismatch domain total ∉ found

namespace Reports

variable {lo hi : Int} {rest : List (Int × Int)} {found : List Warning}

theorem nil (h : cursor ≤ high + 1) :
    Reports low high cursor [] (scanRanges low high cursor []) where
  wasted_eq := by
    rw [scanRanges]
    split <;> rfl
  isGap := by
    intro a b hmem
    rw [scanRanges] at hmem
    split at hmem
    · next hle =>
      obtain ⟨rfl, rfl⟩ : a = cursor ∧ b = high := by simpa using hmem
      exact ⟨hle, le_rfl, le_rfl, fun _ _ _ => rfl, by omega, by omega⟩
    · cases hmem
  exists_gap := by
    intro v hv hv' _
    rw [scanRanges, if_pos (hv.trans hv')]
    exact ⟨cursor, high, List.mem_singleton.mpr rfl, hv, hv'⟩
  ascending := by
    rw [scanRanges]
    split <;> simp [Warning.gap?]
  overlap_le := by
    intro a b hmem
    rw [scanRanges] at hmem
    split at hmem <;> simp at hmem
  overlap_iff := by
    intro v
    rw [scanRanges]
    split <;> simp [rangeCount]
  no_mismatch := by
    intro domain total hmem
    rw [scanRanges] at hmem
    split at hmem <;> simp at hmem

/-- A range outside the bounds is wasted and changes nothing else. -/
theorem outside (hout : min hi high < max lo low) (hlow : low ≤ cursor)
    (h : Reports low high cursor rest found) :
    Reports low high cursor ((lo, hi) :: rest) (wasted low high lo hi ++ found) := by
  have hcount : ∀ v, low ≤ v → v ≤ high →
      rangeCount ((lo, hi) :: rest) v = rangeCount rest v := by
    intro v hv hv'
    rw [rangeCount_cons_of_between hv hv', if_neg (by omega), Nat.add_zero]
  constructor
  case wasted_eq =>
    rw [List.filterMap_append, h.wasted_eq, filterMap_outOfDomain?_wasted]
  case isGap =>
    intro a b hmem
    have hgap : .gap a b ∈ found := by simpa [mem_wasted] using hmem
    exact (h.isGap a b hgap).congr fun v hv hv' => hcount v (by omega) hv'
  case exists_gap =>
    intro v hv hv' huncovered
    rw [hcount v (by omega) hv'] at huncovered
    obtain ⟨a, b, hgap, hab⟩ := h.exists_gap v hv hv' huncovered
    exact ⟨a, b, List.mem_append_right _ hgap, hab⟩
  case ascending =>
    rw [List.filterMap_append, filterMap_gap?_wasted, List.nil_append]
    exact h.ascending
  case overlap_le =>
    intro a b hmem
    exact h.overlap_le a b (by simpa [mem_wasted] using hmem)
  case overlap_iff =>
    intro v
    have hsame : (∃ a b, .overlap a b ∈ wasted low high lo hi ++ found ∧ a ≤ v ∧ v ≤ b) ↔
        ∃ a b, .overlap a b ∈ found ∧ a ≤ v ∧ v ≤ b := by simp [mem_wasted]
    rw [hsame, h.overlap_iff]
    refine and_congr_right fun hv => and_congr_right fun hv' => ?_
    rw [hcount v hv hv']
  case no_mismatch =>
    intro domain total hmem
    exact h.no_mismatch domain total (by simpa [mem_wasted] using hmem)

/-- A range within the bounds closes the gap before it, overlaps what lies below the cursor, and
leads the cursor past it. -/
theorem inside (hin : max lo low ≤ min hi high) (hsorted : ∀ r ∈ rest, lo ≤ r.1)
    (hlow : low ≤ cursor) (h : Reports low high (max cursor (min hi high + 1)) rest found) :
    Reports low high cursor ((lo, hi) :: rest)
      (wasted low high lo hi ++ met cursor (max lo low) (min hi high) ++ found) := by
  have hcount : ∀ v, low ≤ v → v ≤ high → rangeCount ((lo, hi) :: rest) v =
      rangeCount rest v + if max lo low ≤ v ∧ v ≤ min hi high then 1 else 0 :=
    fun v hv hv' => rangeCount_cons_of_between hv hv'
  have hbelow : ∀ v, low ≤ v → v < max lo low → rangeCount rest v = 0 :=
    fun v hv hv' => rangeCount_of_lt hsorted (by omega)
  constructor
  case wasted_eq =>
    have hnone : (met cursor (max lo low) (min hi high)).filterMap Warning.outOfDomain? = [] := by
      unfold met
      split
      · rfl
      · split <;> rfl
    rw [List.filterMap_append, List.filterMap_append, hnone, List.append_nil, h.wasted_eq,
      filterMap_outOfDomain?_wasted]
  case isGap =>
    intro a b hmem
    have hcases : (cursor < max lo low ∧ a = cursor ∧ b = max lo low - 1) ∨ .gap a b ∈ found := by
      simpa [mem_wasted, mem_met] using hmem
    rcases hcases with ⟨hlt, rfl, rfl⟩ | hgap
    · exact isGap_before hin hsorted hlow hlt
    · exact isGap_later hin hlow (h.isGap a b hgap)
  case exists_gap =>
    intro v hv hv' huncovered
    rw [hcount v (by omega) hv'] at huncovered
    by_cases hnext : max cursor (min hi high + 1) ≤ v
    · obtain ⟨a, b, hgap, hab⟩ := h.exists_gap v hnext hv' (by omega)
      exact ⟨a, b, List.mem_append_right _ hgap, hab⟩
    · have hlt : v < max lo low := by
        by_contra hge
        rw [if_pos (by omega)] at huncovered
        omega
      refine ⟨cursor, max lo low - 1, List.mem_append_left _ (List.mem_append_right _ ?_),
        hv, by omega⟩
      exact mem_met.mpr (.inl ⟨by omega, rfl⟩)
  case ascending =>
    have hlater : ∀ g ∈ found.filterMap Warning.gap?, max lo low - 1 < g.1 := by
      rintro ⟨a, b⟩ hg
      have hfirst := (h.isGap a b (Warning.mem_filterMap_gap?.mp hg)).first_le
      simp only
      omega
    rw [List.filterMap_append, List.filterMap_append, filterMap_gap?_wasted, List.nil_append]
    unfold met
    split
    · exact List.pairwise_cons.mpr ⟨hlater, h.ascending⟩
    · split <;> exact h.ascending
  case overlap_le =>
    intro a b hmem
    have hcases : (max lo low < cursor ∧ a = max lo low ∧ b = min (min hi high) (cursor - 1)) ∨
        .overlap a b ∈ found := by
      simpa [mem_wasted, mem_met] using hmem
    rcases hcases with ⟨hlt, rfl, rfl⟩ | hoverlap
    · omega
    · exact h.overlap_le a b hoverlap
  case overlap_iff =>
    intro v
    rw [exists_overlap_iff, h.overlap_iff]
    by_cases hv : low ≤ v ∧ v ≤ high
    · have hbelow := hbelow v hv.1
      rw [hcount v hv.1 hv.2]
      split <;> omega
    · omega
  case no_mismatch =>
    intro domain total hmem
    exact h.no_mismatch domain total (by simpa [mem_wasted, mem_met] using hmem)

/-- Nothing is reported of ranges that tile what lies between the bounds. -/
theorem eq_nil_iff {ranges : List (Int × Int)} (h : Reports low high low ranges found) :
    found = [] ↔ (∀ r ∈ ranges, low ≤ r.1 ∧ r.2 ≤ high) ∧
      ∀ v, low ≤ v → v ≤ high → rangeCount ranges v = 1 := by
  have hwithin : (ranges.filter fun r => r.1 < low ∨ high < r.2) = [] ↔
      ∀ r ∈ ranges, low ≤ r.1 ∧ r.2 ≤ high := by simp
  constructor
  · rintro rfl
    refine ⟨hwithin.mp h.wasted_eq.symm, fun v hv hv' => ?_⟩
    have hcovered : rangeCount ranges v ≠ 0 := by
      intro huncovered
      obtain ⟨a, b, hgap, -⟩ := h.exists_gap v hv hv' huncovered
      cases hgap
    have honce : ¬2 ≤ rangeCount ranges v := by
      intro htwice
      obtain ⟨a, b, hoverlap, -⟩ := (h.overlap_iff v).mpr ⟨hv, hv', .inl htwice⟩
      cases hoverlap
    omega
  · rintro ⟨hinside, hone⟩
    refine List.eq_nil_iff_forall_not_mem.mpr fun x hx => ?_
    cases x with
    | weightMismatch domain total => exact h.no_mismatch domain total hx
    | overlap a b =>
      have hle := h.overlap_le a b hx
      obtain ⟨hlow, hhigh, hcount⟩ := (h.overlap_iff a).mp ⟨a, b, hx, le_rfl, hle⟩
      have := hone a hlow hhigh
      omega
    | gap a b =>
      have hgap := h.isGap a b hx
      have huncovered := hgap.uncovered a le_rfl hgap.le
      rw [hone a hgap.first_le (hgap.le.trans hgap.le_last)] at huncovered
      cases huncovered
    | outOfDomain lo hi =>
      have hwasted := h.wasted_eq
      rw [hwithin.mpr hinside, List.filterMap_eq_nil_iff] at hwasted
      cases hwasted _ hx

end Reports

/-- The scan reports what there is to report of ascending ranges. -/
theorem reports_scanRanges (hleast : least ≤ low) (hhigh : high < greatest) :
    ∀ {ranges : List (Int × Int)} {cursor : Int}, ranges.Pairwise (fun a b => a.1 ≤ b.1) →
      low ≤ cursor → cursor ≤ high + 1 →
      Reports low high cursor ranges (scanRanges low high cursor ranges)
  | [], _, _, _, hcursor => .nil hcursor
  | (lo, hi) :: rest, cursor, hsorted, hlow, hcursor => by
    obtain ⟨hfirst, hsorted⟩ := List.pairwise_cons.mp hsorted
    by_cases hout : min hi high < max lo low
    · rw [scanRanges_outside rest hout]
      exact (reports_scanRanges hleast hhigh hsorted hlow hcursor).outside hout hlow
    · rw [scanRanges_inside hleast (by omega) rest hlow (by omega) (by omega)]
      refine (reports_scanRanges hleast hhigh hsorted ?_ ?_).inside (by omega) hfirst hlow
      · omega
      · omega

/-! ### Tables -/

/-- The ranges that are scanned ascend by their first values. -/
theorem pairwise_ranges (t : Table) : t.ranges.Pairwise fun a b => a.1 ≤ b.1 := by
  have htrans : ∀ a b c, rangeLe a b = true → rangeLe b c = true → rangeLe a c = true := by
    intro a b c
    simp only [rangeLe, Bool.or_eq_true, Bool.and_eq_true, decide_eq_true_eq]
    omega
  have htotal : ∀ a b, (rangeLe a b || rangeLe b a) = true := by
    intro a b
    simp only [rangeLe, Bool.or_eq_true, Bool.and_eq_true, decide_eq_true_eq]
    omega
  have hsorted := List.pairwise_mergeSort htrans htotal (t.entries.map rangeOf)
  refine hsorted.imp fun {a b} hab => ?_
  simp only [rangeLe, Bool.or_eq_true, Bool.and_eq_true, decide_eq_true_eq] at hab
  omega

/-- Number of outcomes whose ranges hold a value. -/
def coverage (t : Table) (v : Int) : Nat := t.entries.countP fun e => e.lo ≤ v ∧ v ≤ e.hi

theorem rangeCount_ranges (t : Table) (v : Int) : rangeCount t.ranges v = t.coverage v := by
  rw [rangeCount, t.perm_ranges.countP_eq, List.countP_map]
  rfl

theorem map_weight (entries : List Entry) :
    entries.map Entry.weight = (entries.map Entry.width).map (min · greatest) := by
  rw [List.map_map]
  exact List.map_congr_left fun e _ => e.weight_eq_min

/-- Sums of weights are exact up to the greatest number. -/
theorem foldl_addClamped : ∀ (widths : List Int) {sum : Int}, (∀ w ∈ widths, 0 ≤ w) → 0 ≤ sum →
    (widths.map (min · greatest)).foldl addClamped (min sum greatest) =
      min (sum + widths.sum) greatest
  | [], sum, _, _ => by simp
  | w :: widths, sum, hwidths, hsum => by
    obtain ⟨hw, hwidths⟩ := List.forall_mem_cons.mp hwidths
    have hstep : addClamped (min sum greatest) (min w greatest) = min (sum + w) greatest := by
      simp only [addClamped, clamp, least, greatest]
      omega
    rw [List.map_cons, List.foldl_cons, hstep, foldl_addClamped widths hwidths (by omega),
      List.sum_cons, add_assoc]

theorem totalWeight_eq (t : Table) :
    t.totalWeight = min (t.entries.map Entry.width).sum greatest := by
  have hwidths : ∀ w ∈ t.entries.map Entry.width, 0 ≤ w := by
    intro w hw
    obtain ⟨e, -, rfl⟩ := List.mem_map.mp hw
    exact e.width_pos.le
  have h := foldl_addClamped (t.entries.map Entry.width) hwidths le_rfl
  rwa [zero_add, ← map_weight] at h

theorem totalWeight_eq_sum_weight (t : Table) :
    t.totalWeight = min (t.entries.map Entry.weight).sum greatest := by
  have hsame : (t.entries.map Entry.weight).map (min · greatest) = t.entries.map Entry.weight := by
    rw [map_weight, List.map_map]
    exact List.map_congr_left fun w _ => by simp
  have hweights : ∀ w ∈ t.entries.map Entry.weight, 0 ≤ w := by
    intro w hw
    obtain ⟨e, -, rfl⟩ := List.mem_map.mp hw
    exact e.weight_pos.le
  have h := foldl_addClamped (t.entries.map Entry.weight) hweights le_rfl
  rwa [zero_add, hsame] at h

/-- The warnings of a table are those there should be: the weights do not add up, outcomes reach
beyond the values of the expression, longest runs of values are covered by no outcome, values are
covered by more than one. -/
structure WarnsExactly (t : Table) : Prop where
  mismatch_iff : (∃ domain total, .weightMismatch domain total ∈ t.warnings) ↔
    (t.entries.map Entry.weight).sum ≠ t.high - t.low + 1
  mismatch_iff_width : (∃ domain total, .weightMismatch domain total ∈ t.warnings) ↔
    (t.entries.map Entry.width).sum ≠ t.high - t.low + 1
  wasted_perm : (t.warnings.filterMap Warning.outOfDomain?).Perm
    ((t.entries.map rangeOf).filter fun r => r.1 < t.low ∨ t.high < r.2)
  gap_iff : ∀ a b, .gap a b ∈ t.warnings ↔ IsGap t.coverage t.low t.high a b
  gaps_ascend : (t.warnings.filterMap Warning.gap?).Pairwise fun g g' => g.2 < g'.1
  overlap_iff : ∀ v, (∃ a b, .overlap a b ∈ t.warnings ∧ a ≤ v ∧ v ≤ b) ↔
    t.low ≤ v ∧ v ≤ t.high ∧ 2 ≤ t.coverage v
  nil_iff : t.warnings = [] ↔ (∀ e ∈ t.entries, t.low ≤ e.lo ∧ e.hi ≤ t.high) ∧
    ∀ v, t.low ≤ v → v ≤ t.high → t.coverage v = 1

/-- The scan of a table, whose values end before the greatest number. -/
theorem reports_table {t : Table} (hhigh : t.high < greatest) :
    Reports t.low t.high t.low t.ranges (scanRanges t.low t.high t.low t.ranges) := by
  obtain ⟨hlow, hle, -⟩ := Expr.fits_of_domain t.domain_eq
  exact reports_scanRanges hlow.1 hhigh t.pairwise_ranges le_rfl (by omega)

/-- A warning other than that of the weights comes from the scan. -/
theorem mem_warnings {t : Table} {x : Warning}
    (hx : ∀ domain total, x ≠ .weightMismatch domain total) :
    x ∈ t.warnings ↔ x ∈ scanRanges t.low t.high t.low t.ranges := by
  rw [warnings, List.mem_append]
  split
  · simp
  · simp [hx]

theorem filterMap_warnings {t : Table} {β : Type} {pick? : Warning → Option β}
    (hpick : ∀ domain total, pick? (.weightMismatch domain total) = none) :
    t.warnings.filterMap pick? = (scanRanges t.low t.high t.low t.ranges).filterMap pick? := by
  rw [warnings, List.filterMap_append]
  split
  · rfl
  · simp [hpick]

theorem domainSize_eq {t : Table} (hsize : t.high - t.low + 1 < greatest) :
    t.domainSize = t.high - t.low + 1 := by
  obtain ⟨-, hle, -⟩ := Expr.fits_of_domain t.domain_eq
  have hdiff : subClamped t.high t.low = t.high - t.low :=
    subClamped_of_fits (.of_nonneg (by omega) (by omega))
  rw [domainSize, hdiff]
  exact addClamped_of_fits (.of_nonneg (by omega) hsize.le)

/-- A mismatch of the weights is reported first, and not by the scan. -/
theorem exists_mismatch_iff {t : Table} (hhigh : t.high < greatest) :
    (∃ domain total, .weightMismatch domain total ∈ t.warnings) ↔ t.totalWeight ≠ t.domainSize := by
  have hscan := (reports_table hhigh).no_mismatch
  rw [warnings]
  simp only [List.mem_append, hscan, or_false]
  split
  · next hne => simp [hne]
  · next heq => simpa using heq

/-- Outcomes that tile the values of the expression are scanned without a warning. -/
theorem scanRanges_eq_nil_iff {t : Table} (hhigh : t.high < greatest) :
    scanRanges t.low t.high t.low t.ranges = [] ↔
      (∀ e ∈ t.entries, t.low ≤ e.lo ∧ e.hi ≤ t.high) ∧
        ∀ v, t.low ≤ v → v ≤ t.high → t.coverage v = 1 := by
  rw [(reports_table hhigh).eq_nil_iff]
  simp only [rangeCount_ranges, t.perm_ranges.mem_iff, List.forall_mem_map, rangeOf]

/-- In a table whose values end before the greatest number and are fewer than that, the warnings are
exactly those there should be; there is none if and only if the outcomes tile the values. -/
theorem warnings_exact {t : Table} (hhigh : t.high < greatest)
    (hsize : t.high - t.low + 1 < greatest) : t.WarnsExactly := by
  obtain ⟨hwasted, hgap, hexists, hascend, -, hoverlap, -⟩ := reports_table hhigh
  have hcount : rangeCount t.ranges = t.coverage := funext t.rangeCount_ranges
  rw [hcount] at hgap hexists hoverlap
  have hgaps : ∀ a b, .gap a b ∈ t.warnings ↔ .gap a b ∈ scanRanges t.low t.high t.low t.ranges :=
    fun a b => mem_warnings fun _ _ h => by cases h
  have hdomain := domainSize_eq hsize
  constructor
  case mismatch_iff =>
    rw [exists_mismatch_iff hhigh, totalWeight_eq_sum_weight, hdomain]
    omega
  case mismatch_iff_width =>
    rw [exists_mismatch_iff hhigh, totalWeight_eq, hdomain]
    omega
  case wasted_perm =>
    rw [filterMap_warnings fun _ _ => rfl, hwasted]
    exact t.perm_ranges.filter _
  case gap_iff =>
    intro a b
    rw [hgaps]
    constructor
    · exact hgap a b
    · intro h
      -- Some gap is reported for the first value, and it can only be this one.
      obtain ⟨a', b', hmem, ha⟩ := hexists a h.first_le (h.le.trans h.le_last)
        (h.uncovered a le_rfl h.le)
      obtain ⟨rfl, rfl⟩ := h.eq_of_mem (hgap a' b' hmem) ⟨le_rfl, h.le⟩ ha
      exact hmem
  case gaps_ascend =>
    rw [filterMap_warnings fun _ _ => rfl]
    exact hascend
  case overlap_iff =>
    intro v
    have hsame : ∀ a b, .overlap a b ∈ t.warnings ↔
        .overlap a b ∈ scanRanges t.low t.high t.low t.ranges :=
      fun a b => mem_warnings fun _ _ h => by cases h
    simp only [hsame, hoverlap]
    omega
  case nil_iff =>
    rw [warnings_eq_nil_iff, scanRanges_eq_nil_iff hhigh]
    refine ⟨And.right, fun h => ⟨?_, h⟩⟩
    obtain ⟨hlow, hle, -⟩ := Expr.fits_of_domain t.domain_eq
    have hordered : ∀ r ∈ t.ranges, r.1 ≤ r.2 := by
      intro r hr
      obtain ⟨e, -, rfl⟩ := List.mem_map.mp (t.perm_ranges.mem_iff.mp hr)
      exact e.lo_le_hi
    have htiles := tiles_of_scanRanges hlow.1 hhigh hordered (by omega)
      ((scanRanges_eq_nil_iff hhigh).mpr h)
    rw [totalWeight_eq, hdomain, map_width, ← (t.perm_ranges.map rangeWidth).sum_eq,
      htiles.sum_width]
    omega

/-- Outcomes that overlap, leave a gap, and reach beyond the greatest value. -/
theorem warnings_exact_weather :
    ∃ t, ofText "d6 Weather\n1-2 Sun\n2-3 Rain\n5-6 Snow\n6-9 Hail".toList {} = .ok t ∧
      t.high < greatest ∧ t.high - t.low + 1 < greatest ∧ t.WarnsExactly := by
  have hfacts : (ofText "d6 Weather\n1-2 Sun\n2-3 Rain\n5-6 Snow\n6-9 Hail".toList
      {}).toOption.any (fun t => t.low = 1 ∧ t.high = 6) = true := by decide +kernel
  obtain ⟨t, hbuilt, hfacts⟩ := (Option.any_eq_true _ _).mp hfacts
  obtain ⟨hlow, hhigh⟩ := of_decide_eq_true hfacts
  have hend : t.high < greatest := by
    rw [hhigh]
    decide
  have hsize : t.high - t.low + 1 < greatest := by
    rw [hhigh, hlow]
    decide
  exact ⟨t, toOption_eq_some.mp hbuilt, hend, hsize, warnings_exact hend hsize⟩

end Table

end DiceTables
