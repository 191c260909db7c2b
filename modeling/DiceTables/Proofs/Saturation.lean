import DiceTables.Proofs.Warnings

/-!
What is lost by counting with 64 bits. The weights of outcomes, their sums and the positions of
values stop at the greatest number. The same algorithms can be run in any arithmetic, so those of a
table are set against their runs among all whole numbers. A weight or a sum is the exact one up to
the greatest number and the greatest number beyond it, a value selects what it would select if it had
no position past the greatest number, and the scan over the ranges reports the same. Only the numbers
of a mismatch can differ.

The scan is left out where an outcome reaches the greatest number in a table whose values go as far:
its cursor cannot get past that number.
-/

namespace DiceTables

open Whole

/-! ### Algorithms in any arithmetic -/

/-- How sums and differences are taken. -/
structure Arithmetic where
  /-- The sum of two numbers. -/
  add : Int → Int → Int
  /-- The difference of two numbers. -/
  sub : Int → Int → Int

namespace Arithmetic

/-- Sums and differences that stop at the ends of the range of 64 bits. -/
def clamped : Arithmetic := ⟨addClamped, subClamped⟩

/-- Sums and differences among all whole numbers. -/
def unbounded : Arithmetic := ⟨(· + ·), (· - ·)⟩

variable (a : Arithmetic)

/-- Number of values in the range of an outcome. -/
def weight (e : Entry) : Int := a.add (a.sub e.hi e.lo) 1

/-- The sum of the weights of all outcomes. -/
def totalWeight (t : Table) : Int := (t.entries.map a.weight).foldl a.add 0

/-- Index of the first outcome at which the running weight reaches a position, or else of the last.
-/
def indexFrom (position running : Int) : List Entry → Nat
  | [] => 0
  | [_] => 0
  | e :: e' :: rest =>
    let running := a.add running (a.weight e)
    if position ≤ running then 0 else indexFrom position running (e' :: rest) + 1

/-- Index of the outcome that a value selects. -/
def indexFor (t : Table) (value : Int) : Nat :=
  a.indexFrom (a.add (a.sub value t.low) 1) 0 t.entries

/-- Number of values the expression can take. -/
def domainSize (t : Table) : Int := a.add (a.sub t.high t.low) 1

/-- What ascending ranges leave uncovered, cover twice or waste between `low` and `high`. -/
def scanRanges (low high : Int) : (cursor : Int) → List (Int × Int) → List Warning
  | cursor, [] => if cursor ≤ high then [.gap cursor high] else []
  | cursor, (lo, hi) :: rest =>
    let wasted := if lo < low ∨ high < hi then [.outOfDomain lo hi] else []
    let start := max lo low
    let stop := min hi high
    if stop < start then wasted ++ scanRanges low high cursor rest
    else
      let found : List Warning :=
        if cursor < start then [.gap cursor (a.sub start 1)]
        else if start < cursor then [.overlap start (min stop (a.sub cursor 1))]
        else []
      wasted ++ found ++ scanRanges low high (max cursor (a.add stop 1)) rest

/-- What is said of weights that do not add up to the number of values. -/
def mismatch (domain total : Int) : List Warning :=
  if total = domain then [] else [.weightMismatch domain total]

/-- Everything that is wrong with the coverage of a table. -/
def warnings (t : Table) : List Warning :=
  mismatch (a.domainSize t) (a.totalWeight t) ++ a.scanRanges t.low t.high t.low t.ranges

end Arithmetic

/-- The answers of a table are those that its algorithms give in an arithmetic. -/
structure Table.CountsIn (t : Table) (a : Arithmetic) : Prop where
  weight_eq : ∀ e ∈ t.entries, e.weight = a.weight e
  totalWeight_eq : t.totalWeight = a.totalWeight t
  indexFor_eq : ∀ v, t.low ≤ v → v ≤ t.high → t.indexFor v = a.indexFor t v
  warnings_eq : t.warnings = a.warnings t

/-! ### Clamped arithmetic is that of tables -/

namespace Arithmetic

theorem indexFrom_clamped (position running : Int) (entries : List Entry) :
    Table.indexFrom position running entries = clamped.indexFrom position running entries := by
  induction entries generalizing running with
  | nil => rfl
  | cons e rest ih =>
    cases rest with
    | nil => rfl
    | cons e' rest =>
      simp only [Table.indexFrom, indexFrom, ih]
      rfl

theorem scanRanges_clamped (low high cursor : Int) (ranges : List (Int × Int)) :
    Table.scanRanges low high cursor ranges = clamped.scanRanges low high cursor ranges := by
  induction ranges generalizing cursor with
  | nil => rfl
  | cons r rest ih =>
    simp only [Table.scanRanges, scanRanges, ih]
    rfl

theorem warnings_clamped (t : Table) : t.warnings = clamped.warnings t := by
  rw [Table.warnings, scanRanges_clamped]
  rfl

end Arithmetic

open Arithmetic

theorem Table.countsIn_clamped (t : Table) : t.CountsIn clamped where
  weight_eq _ _ := rfl
  totalWeight_eq := rfl
  indexFor_eq _ _ _ := indexFrom_clamped _ 0 t.entries
  warnings_eq := warnings_clamped t

/-! ### Clamped against unbounded arithmetic -/

namespace Arithmetic

theorem weight_unbounded (e : Entry) : unbounded.weight e = e.width := rfl

theorem totalWeight_unbounded (t : Table) :
    unbounded.totalWeight t = (t.entries.map Entry.width).sum :=
  List.sum_eq_foldl.symm

/-- A position that can be counted is reached by clamped sums where it is reached by exact ones. -/
theorem indexFrom_eq_unbounded {p : Int} (hp : p ≤ greatest) {running : Int} (hrunning : 0 ≤ running)
    (entries : List Entry) :
    Table.indexFrom p (min running greatest) entries = unbounded.indexFrom p running entries := by
  induction entries generalizing running with
  | nil => rfl
  | cons e rest ih =>
    cases rest with
    | nil => rfl
    | cons e' rest =>
      have hwidth := e.width_pos
      have hsum : addClamped (min running greatest) e.weight = min (running + e.width) greatest := by
        rw [Entry.weight_eq_min]
        simp only [addClamped, clamp, least, greatest]
        omega
      have hlater : Table.indexFrom p (min (running + e.width) greatest) (e' :: rest) =
          unbounded.indexFrom p (running + e.width) (e' :: rest) := ih (by omega)
      have hreached : p ≤ min (running + e.width) greatest ↔ p ≤ running + e.width := by omega
      simp only [Table.indexFrom, hsum, hlater, hreached]
      rfl

/-- A scan that never steps over the greatest number meets no end of the range. -/
theorem scanRanges_eq_unbounded {low high : Int} (hlow : least ≤ low) {ranges : List (Int × Int)}
    (hstop : ∀ r ∈ ranges, min r.2 high < greatest) {cursor : Int} (hcursor : low ≤ cursor)
    (hcursor' : cursor ≤ greatest) :
    Table.scanRanges low high cursor ranges = unbounded.scanRanges low high cursor ranges := by
  induction ranges generalizing cursor with
  | nil => rfl
  | cons r rest ih =>
    obtain ⟨lo, hi⟩ := r
    obtain ⟨hr, hrest⟩ := List.forall_mem_cons.mp hstop
    by_cases hout : min hi high < max lo low
    · rw [Table.scanRanges_outside rest hout, ih hrest hcursor hcursor', scanRanges, if_pos hout,
        Table.wasted]
    · rw [Table.scanRanges_inside hlow hr rest hcursor hcursor' (by omega),
        ih hrest (by omega) (by omega), scanRanges, if_neg hout, Table.wasted, Table.met]
      rfl

theorem mismatch_min_eq_iff {domain total : Int} :
    mismatch (min domain greatest) (min total greatest) = mismatch domain total ↔
      (domain ≤ greatest ∧ total ≤ greatest) ∨ domain = total := by
  by_cases hsame : total = domain
  · simp [mismatch, hsame]
  · by_cases hclamped : min total greatest = min domain greatest
    · simp only [mismatch, if_pos hclamped, if_neg hsame]
      simp
      omega
    · simp only [mismatch, if_neg hclamped, if_neg hsame]
      simp
      omega

end Arithmetic

namespace Table

/-- The scan has no need to go past the greatest number. -/
def StaysBelow (t : Table) : Prop := t.high < greatest ∨ ∀ e ∈ t.entries, e.hi < greatest

variable {t : Table}

theorem StaysBelow.scanRanges_eq (h : t.StaysBelow) :
    scanRanges t.low t.high t.low t.ranges = unbounded.scanRanges t.low t.high t.low t.ranges := by
  obtain ⟨hlow, -, -⟩ := Expr.fits_of_domain t.domain_eq
  refine scanRanges_eq_unbounded hlow.1 (fun r hr => ?_) le_rfl hlow.2
  obtain ⟨e, he, rfl⟩ := List.mem_map.mp (t.perm_ranges.mem_iff.mp hr)
  rcases h with hhigh | hentries
  · exact (min_le_right _ _).trans_lt hhigh
  · exact (min_le_left _ _).trans_lt (hentries e he)

theorem domainSize_eq_min (t : Table) :
    t.domainSize = min (unbounded.domainSize t) greatest := by
  obtain ⟨-, hle, -⟩ := Expr.fits_of_domain t.domain_eq
  have hexact : unbounded.domainSize t = t.high - t.low + 1 := rfl
  rw [hexact]
  simp only [domainSize, addClamped, subClamped, clamp, least, greatest]
  omega

theorem totalWeight_eq_min (t : Table) :
    t.totalWeight = min (unbounded.totalWeight t) greatest := by
  rw [totalWeight_unbounded, totalWeight_eq]

theorem StaysBelow.warnings_eq (h : t.StaysBelow) : t.warnings =
    mismatch (min (unbounded.domainSize t) greatest) (min (unbounded.totalWeight t) greatest) ++
      unbounded.scanRanges t.low t.high t.low t.ranges := by
  rw [warnings, h.scanRanges_eq, ← domainSize_eq_min, ← totalWeight_eq_min, mismatch]

theorem StaysBelow.warnings_eq_iff (h : t.StaysBelow) : t.warnings = unbounded.warnings t ↔
    (unbounded.domainSize t ≤ greatest ∧ unbounded.totalWeight t ≤ greatest) ∨
      unbounded.domainSize t = unbounded.totalWeight t := by
  rw [h.warnings_eq, Arithmetic.warnings, List.append_left_inj, mismatch_min_eq_iff]

/-- A value selects what it would select among all whole numbers, had it no position past the
greatest number. -/
theorem indexFor_eq_unbounded {v : Int} (hlow : t.low ≤ v) :
    t.indexFor v = unbounded.indexFor t (min v (t.low + greatest - 1)) := by
  have hposition : t.position v = min v (t.low + greatest - 1) - t.low + 1 := by
    simp only [position, addClamped, subClamped, clamp, least, greatest]
    omega
  have hexact := indexFrom_eq_unbounded (p := t.position v) (clamp_le_greatest _) le_rfl t.entries
  rw [indexFor, ← min_eq_left (show (0 : Int) ≤ greatest by decide), hexact, hposition]
  rfl

/-- Clamping shows where an exact number lies past the greatest number of 64 bits, and only there. A
weight or a sum is then the greatest number, a value whose position lies past it selects by that
position, and a mismatch has the clamped numbers. -/
structure ClampsPastGreatest (t : Table) : Prop where
  weight_eq : ∀ e ∈ t.entries, e.weight = min (unbounded.weight e) greatest
  totalWeight_eq : t.totalWeight = min (unbounded.totalWeight t) greatest
  indexFor_eq : ∀ v, t.low ≤ v → v ≤ t.high →
    t.indexFor v = unbounded.indexFor t (min v (t.low + greatest - 1))
  warnings_eq : t.StaysBelow → t.warnings =
    mismatch (min (unbounded.domainSize t) greatest) (min (unbounded.totalWeight t) greatest) ++
      unbounded.scanRanges t.low t.high t.low t.ranges
  warnings_eq_iff : t.StaysBelow → (t.warnings = unbounded.warnings t ↔
    (unbounded.domainSize t ≤ greatest ∧ unbounded.totalWeight t ≤ greatest) ∨
      unbounded.domainSize t = unbounded.totalWeight t)
  countsIn_unbounded : t.StaysBelow → unbounded.domainSize t ≤ greatest →
    unbounded.totalWeight t ≤ greatest → t.CountsIn unbounded

theorem weight_le_totalWeight {e : Entry} (he : e ∈ t.entries) :
    unbounded.weight e ≤ unbounded.totalWeight t := by
  rw [totalWeight_unbounded, weight_unbounded]
  exact Entry.width_le_sum he

/-- A table counts in clamped arithmetic, and differs from exact counting only past the greatest
number. -/
theorem clamps_past_greatest (t : Table) : t.CountsIn clamped ∧ t.ClampsPastGreatest := by
  refine ⟨t.countsIn_clamped, ?_⟩
  constructor
  case weight_eq =>
    intro e _
    exact e.weight_eq_min
  case totalWeight_eq => exact t.totalWeight_eq_min
  case indexFor_eq =>
    intro v hlow _
    exact indexFor_eq_unbounded hlow
  case warnings_eq => exact StaysBelow.warnings_eq
  case warnings_eq_iff => exact StaysBelow.warnings_eq_iff
  case countsIn_unbounded =>
    intro hbelow hsize htotal
    constructor
    case weight_eq =>
      intro e he
      exact Entry.weight_eq_width ((weight_le_totalWeight he).trans htotal)
    case totalWeight_eq =>
      rw [totalWeight_eq_min, min_eq_left htotal]
    case indexFor_eq =>
      intro v hlow hhigh
      have hsize : t.high - t.low + 1 ≤ greatest := hsize
      rw [indexFor_eq_unbounded hlow, min_eq_left (by omega)]
    case warnings_eq => exact hbelow.warnings_eq_iff.mpr (.inl ⟨hsize, htotal⟩)

/-- The widest range there is, in a table with about twice as many values: the weight is one too
small, the last value selects the first outcome and not the last one, and the mismatch of the weights
goes without a warning. -/
theorem widest_range_outweighs :
    ∃ t, build "d1000*9223372036854775 - d1000*9223372036854775".toList
        ["0-9223372036854775807 A".toList, "1 B".toList, "2 C".toList] {} = .ok t ∧
      ¬t.CountsIn unbounded ∧ (∃ e ∈ t.entries, e.weight ≠ unbounded.weight e) ∧
      t.totalWeight ≠ unbounded.totalWeight t ∧
      t.indexFor t.high ≠ unbounded.indexFor t t.high ∧ t.warnings ≠ unbounded.warnings t := by
  have hfacts : (build "d1000*9223372036854775 - d1000*9223372036854775".toList
      ["0-9223372036854775807 A".toList, "1 B".toList, "2 C".toList] {}).toOption.any (fun t =>
        (∃ e ∈ t.entries, e.weight ≠ unbounded.weight e) ∧
        t.totalWeight ≠ unbounded.totalWeight t ∧
        t.indexFor t.high ≠ unbounded.indexFor t t.high ∧ t.high < greatest ∧
        greatest < unbounded.domainSize t ∧
        unbounded.domainSize t ≠ unbounded.totalWeight t) = true := by decide +kernel
  obtain ⟨t, hbuilt, hfacts⟩ := (Option.any_eq_true _ _).mp hfacts
  obtain ⟨hweight, htotal, hindex, hhigh, hsize, hmismatch⟩ := of_decide_eq_true hfacts
  have hwarnings : t.warnings ≠ unbounded.warnings t := by
    rw [Ne, StaysBelow.warnings_eq_iff (.inl hhigh)]
    rintro (⟨hle, -⟩ | heq)
    · exact absurd hle hsize.not_ge
    · exact hmismatch heq
  exact ⟨t, toOption_eq_some.mp hbuilt, fun h => htotal h.totalWeight_eq, hweight, htotal, hindex,
    hwarnings⟩

end Table

end DiceTables
