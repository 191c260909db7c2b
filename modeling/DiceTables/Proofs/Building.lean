import DiceTables.Proofs.Computation
import DiceTables.Table.Inline
import Mathlib.Order.Lattice
import Mathlib.Algebra.Order.Ring.Int

/-!
What is known of a table that has been built: where its expression and its outcomes come from, how
deep it lies and under which limits it was read. Numbered outcomes have ranges from zero up within 64
bits; outcomes with bullets have one number each.
-/

namespace DiceTables

open Whole

/-! ### Outcomes -/

namespace Entry

/-- The range was read from numerals. -/
def FromNumerals (e : Entry) : Prop := 0 ≤ e.lo ∧ e.hi ≤ greatest

/-- The range is a single number. -/
def IsSingle (e : Entry) : Prop := e.lo = e.hi

theorem number?_bounds {digits : List Char} {n : Int} (h : number? digits = some n) :
    0 ≤ n ∧ n ≤ greatest := by
  obtain ⟨k, hk, rfl⟩ := Option.map_eq_some_iff.mp h
  obtain ⟨-, hle⟩ := Option.filter_eq_some_iff.mp hk
  have hle : k ≤ greatest.toNat := of_decide_eq_true hle
  refine ⟨Int.natCast_nonneg k, ?_⟩
  calc (k : Int) ≤ greatest.toNat := Int.ofNat_le.mpr hle
    _ = greatest := by decide

theorem fromNumerals_between {a b : Int} {text : List Char} (ha : 0 ≤ a ∧ a ≤ greatest)
    (hb : 0 ≤ b ∧ b ≤ greatest) : (between a b text).FromNumerals :=
  ⟨le_min ha.1 hb.1, max_le ha.2 hb.2⟩

theorem fromNumerals_of_ofLine? {line : List Char} {e : Entry} (h : ofLine? line = some e) :
    e.FromNumerals := by
  obtain ⟨parts, -, h⟩ := Option.bind_eq_some_iff.mp h
  obtain ⟨lo, hlo, h⟩ := Option.bind_eq_some_iff.mp h
  have hlo := number?_bounds hlo
  cases hlast : parts.last? with
  | none =>
    rw [hlast] at h
    obtain rfl : between lo lo parts.text = e := Option.some.inj h
    exact fromNumerals_between hlo hlo
  | some last =>
    rw [hlast] at h
    obtain ⟨hi, hhi, h⟩ := Option.bind_eq_some_iff.mp h
    obtain rfl : between lo hi parts.text = e := Option.some.inj h
    exact fromNumerals_between hlo (number?_bounds hhi)

theorem isSingle_of_mem_enumerate {low : Int} {texts : List (List Char)} {e : Entry}
    (h : e ∈ enumerate low texts) : e.IsSingle := by
  obtain ⟨⟨text, i⟩, -, rfl⟩ := List.mem_map.mp h
  exact min_self _ |>.trans (max_self _).symm

/-- Either all outcomes of a table are numbered or all have bullets. -/
theorem ofLines_cases (low : Int) (body : List (List Char)) :
    (∀ e ∈ ofLines low body, e.FromNumerals) ∨ (∀ e ∈ ofLines low body, e.IsSingle) := by
  unfold ofLines
  split
  · exact .inr fun e he => isSingle_of_mem_enumerate he
  · refine .inl fun e he => ?_
    obtain ⟨line, -, hline⟩ := List.mem_filterMap.mp he
    exact fromNumerals_of_ofLine? hline

end Entry

/-! ### Tables -/

namespace Table

variable {limits : Limits} {t : Table}

theorem ofParts_eq_ok {description : List Char} {expr : Expr} {entries : List Entry} {depth : Nat}
    (h : ofParts description expr entries depth limits = .ok t) :
    t.description = String.ofList description ∧ t.expr = expr ∧ t.entries = entries ∧
      t.depth = depth ∧ t.limits = limits := by
  unfold ofParts at h
  split at h
  · cases h
  · split at h
    · cases h
    · obtain rfl := Except.ok.inj h
      exact ⟨rfl, rfl, rfl, rfl, rfl⟩

/-- A table that was built from a header and lines. -/
theorem build_eq_ok {header : List Char} {body : List (List Char)}
    (h : build header body limits = .ok t) :
    ∃ parts, Line.header? header = some parts ∧ Expr.ofNotation parts.formula limits = .ok t.expr ∧
      t.description = String.ofList parts.description ∧ t.entries = Entry.ofLines t.low body ∧
      t.depth = 0 ∧ t.limits = limits := by
  unfold build at h
  split at h
  · cases h
  · next parts hparts =>
    obtain ⟨expr, hexpr, h⟩ := bind_eq_ok.mp h
    obtain ⟨⟨low, high⟩, hdom, h⟩ := bind_eq_ok.mp h
    rw [mapError_eq_ok] at hexpr hdom
    obtain ⟨hdesc, hexpr', hentries, hdepth, hlimits⟩ := ofParts_eq_ok h
    have hlow : t.low = low := by
      have hsame := t.domain_eq.symm.trans (hexpr' ▸ hdom)
      exact congrArg Prod.fst (Except.ok.inj hsame)
    exact ⟨parts, hparts, hexpr' ▸ hexpr, hdesc, hlow ▸ hentries, hdepth, hlimits⟩

theorem exists_ofParts {e : Expr} {range : Int × Int} (description : List Char)
    {entries : List Entry} (depth : Nat) (hdomain : e.domain = .ok range) (hne : entries ≠ []) :
    ∃ t, ofParts description e entries depth limits = .ok t := by
  rw [ofParts, dif_neg hne]
  split
  · next err herr =>
    rw [hdomain] at herr
    cases herr
  · exact ⟨_, rfl⟩

/-- A table is built where its header can be read, its expression has values, and there is an outcome.
-/
theorem exists_build {header : List Char} {body : List (List Char)} {parts : Line.Header}
    {e : Expr} {low high : Int} (hparts : Line.header? header = some parts)
    (hread : Expr.ofNotation parts.formula limits = .ok e) (hdomain : e.domain = .ok (low, high))
    (hne : Entry.ofLines low body ≠ []) : ∃ t, build header body limits = .ok t := by
  have hbuild : build header body limits =
      ofParts parts.description e (Entry.ofLines low body) 0 limits := by
    simp [build, hparts, hread, hdomain, Except.mapError, bind, Except.bind]
  rw [hbuild]
  exact exists_ofParts parts.description 0 hdomain hne

/-- A table built from a text is built from a header and lines. -/
theorem ofText_eq_ok {s : List Char} (h : ofText s limits = .ok t) :
    ∃ header body, build header body limits = .ok t := by
  unfold ofText at h
  split at h
  · exact ⟨[], [], h⟩
  · next header body _ => exact ⟨header, body, h⟩

/-- A table inside an outcome. -/
theorem inline?_eq_some {tail : List Char} {depth : Nat} (h : inline? tail depth limits = some t) :
    ∃ dice rest, wordDice tail = some (dice, rest) ∧ Expr.ofNotation dice limits = .ok t.expr ∧
      t.entries = inlineEntries (Marker.findAll rest) ∧ 2 ≤ t.entries.length ∧
      t.depth = depth ∧ t.limits = limits := by
  obtain ⟨⟨dice, rest⟩, hdice, h⟩ := Option.bind_eq_some_iff.mp h
  obtain ⟨expr, hexpr, h⟩ := Option.bind_eq_some_iff.mp h
  rw [toOption_eq_some] at hexpr
  simp only at h
  split at h
  · cases h
  · next hlen =>
    obtain ⟨-, hexpr', hentries, hdepth, hlimits⟩ := ofParts_eq_ok (toOption_eq_some.mp h)
    exact ⟨dice, rest, hdice, hexpr' ▸ hexpr, hentries, by rw [hentries]; omega, hdepth, hlimits⟩

/-- A table inside an outcome lies one deeper than the table of the outcome, which is not as deep
as the limits allow. -/
theorem subtable?_eq_some {e : Entry} {inner : Table} (h : t.subtable? e = some inner) :
    t.depth < t.limits.maxDepth ∧ ∃ tail, inline? tail (t.depth + 1) t.limits = some inner := by
  obtain ⟨trigger, htrigger, h⟩ := Option.bind_eq_some_iff.mp h
  unfold trigger? at htrigger
  split at htrigger
  · next hdepth => exact ⟨hdepth, trigger.tail, h⟩
  · cases htrigger

end Table

end DiceTables
