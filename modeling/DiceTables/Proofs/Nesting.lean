import DiceTables.Proofs.Rolling
import DiceTables.Proofs.SelectionLine
import Mathlib.Logic.Relation

/-!
How deep tables lie inside one another, and what that makes of a report. What is known of a table
that was built carries over to the tables inside its outcomes, which lie one deeper; at the depth
that the limits allow no outcome has a table inside it any more. A roll goes down one table at a
time, so the selections of an outcome are as deep as they are far from the first. Since nothing that
was read has a line break in it, each of them takes one line of the report, indented by twice its
depth.
-/

namespace DiceTables

open Text Scanner

variable {σ : Type} {limits : Limits}

/-! ### Tables inside one another -/

namespace Table

variable {t inner : Table}

/-- A table lies inside one of the outcomes of another. -/
def Encloses (t inner : Table) : Prop := ∃ e ∈ t.entries, t.subtable? e = some inner

/-- What holds of every table that has been built under some limits, and of the tables inside it. -/
structure Regular (limits : Limits) (t : Table) : Prop where
  limits_eq : t.limits = limits
  depth_le : t.depth ≤ limits.maxDepth
  buildable : t.expr.Buildable limits
  tidy : t.Tidy

theorem regular_of_build {header : List Char} {body : List (List Char)}
    (h : build header body limits = .ok t) : t.Regular limits ∧ t.depth = 0 := by
  obtain ⟨parts, -, hexpr, -, -, hdepth, hlimits⟩ := build_eq_ok h
  refine ⟨⟨hlimits, ?_, Expr.buildable_of_ofNotation hexpr, tidy_of_build h⟩, hdepth⟩
  rw [hdepth]
  exact Nat.zero_le _

theorem entryFor_mem (t : Table) (value : Int) : t.entryFor value ∈ t.entries :=
  List.get_mem _ _

theorem encloses_of_entryFor {value : Int} (h : t.subtable? (t.entryFor value) = some inner) :
    t.Encloses inner := ⟨_, t.entryFor_mem value, h⟩

namespace Encloses

theorem depth_eq (h : t.Encloses inner) : inner.depth = t.depth + 1 := by
  obtain ⟨e, -, hsub⟩ := h
  obtain ⟨-, tail, hinline⟩ := subtable?_eq_some hsub
  obtain ⟨_, _, -, -, -, -, hdepth, -⟩ := inline?_eq_some hinline
  exact hdepth

theorem two_le_length (h : t.Encloses inner) : 2 ≤ inner.entries.length := by
  obtain ⟨e, -, hsub⟩ := h
  obtain ⟨-, tail, hinline⟩ := subtable?_eq_some hsub
  obtain ⟨_, _, -, -, -, hlength, -, -⟩ := inline?_eq_some hinline
  exact hlength

/-- The tables inside a table are read like the table itself. -/
theorem regular (h : t.Encloses inner) (ht : t.Regular limits) : inner.Regular limits := by
  obtain ⟨e, he, hsub⟩ := h
  obtain ⟨hdepth, tail, hinline⟩ := subtable?_eq_some hsub
  obtain ⟨_, _, -, hexpr, -, -, hinner, hlimits⟩ := inline?_eq_some hinline
  rw [ht.limits_eq] at hdepth hexpr hlimits
  refine ⟨hlimits, ?_, Expr.buildable_of_ofNotation hexpr, ht.tidy.subtable he hsub⟩
  rw [hinner]
  exact hdepth

end Encloses

/-- All tables inside a table, however far inside. -/
theorem Regular.inside (ht : t.Regular limits) (h : Relation.ReflTransGen Encloses t inner) :
    inner.Regular limits := by
  induction h with
  | refl => exact ht
  | tail _ hlast ih => exact hlast.regular ih

/-- At the depth that the limits allow no outcome has a table inside it. -/
theorem Regular.trigger?_eq_none (ht : t.Regular limits) (h : t.depth = limits.maxDepth)
    (e : Entry) : t.trigger? e = none := by
  rw [trigger?, if_neg]
  rw [ht.limits_eq, h]
  exact Nat.lt_irrefl _

end Table

/-! ### The selections of a roll -/

/-- The selections that a roll makes in tables inside one another, down to an outcome without a
table inside it. -/
inductive Selects : List Table → List Selection → Prop
  /-- The selected outcome has no table inside it. -/
  | last {t : Table} {value : Int} (roll : Evaluated)
    (plain : t.subtable? (t.entryFor value) = none) : Selects [t] [t.select roll value]
  /-- The selected outcome has a table inside it, which is rolled next. -/
  | next {t inner : Table} {tables : List Table} {value : Int} {selections : List Selection}
    (roll : Evaluated) (inside : t.subtable? (t.entryFor value) = some inner)
    (more : Selects (inner :: tables) selections) :
    Selects (t :: inner :: tables) (t.select roll value :: selections)

namespace Selects

variable {t : Table} {tables : List Table} {selections : List Selection}

/-- A roll goes from a table to one inside it. -/
theorem isChain (h : Selects tables selections) : tables.IsChain Table.Encloses := by
  induction h with
  | last => exact .singleton _
  | next _ inside _ ih => exact .cons_cons (Table.encloses_of_entryFor inside) ih

/-- The depths of the selections count up from that of the first table. -/
theorem depth_getElem : ∀ {t : Table} {tables : List Table} {selections : List Selection},
    Selects (t :: tables) selections → ∀ (k : Nat) (hk : k < selections.length),
      selections[k].depth = t.depth + k
  | _, _, _, .last roll _, 0, _ => rfl
  | _, _, _, .next roll _ _, 0, _ => rfl
  | _, _, _, .last _ _, k + 1, hk => by simp at hk
  | _, _, _, .next _ inside more, k + 1, hk => by
    have hdepth := (Table.encloses_of_entryFor inside).depth_eq
    rw [List.getElem_cons_succ, more.depth_getElem k (by simpa using hk), hdepth]
    omega

end Selects

/-- A roll that succeeds makes a selection in each table from the outermost to the innermost. -/
theorem Roller.selects_of_resolve (roller : Roller σ) (t : Table) {roll : Evaluated} {s s' : σ}
    {o : Outcome} (h : roller.resolve t roll s = some (.ok o, s')) :
    ∃ tables, Selects (t :: tables) o.selections := by
  cases hresult : roll.result with
  | error err =>
    rw [roller.resolve_of_error hresult, pure_apply] at h
    cases h
  | ok value =>
    rw [roller.resolve_of_ok hresult] at h
    cases hsub : t.subtable? (t.entryFor value) with
    | none =>
      rw [hsub] at h
      cases h
      exact ⟨[], .last roll hsub⟩
    | some inner =>
      rw [hsub] at h
      obtain ⟨r, mid, hinner, h⟩ := bind_eq_some.mp h
      cases r with
      | error err => cases h
      | ok inside =>
        cases h
        obtain ⟨innerRoll, start, -, hresolve⟩ := bind_eq_some.mp hinner
        have hroom := Table.room_of_subtable? hsub
        obtain ⟨tables, hmore⟩ := roller.selects_of_resolve inner hresolve
        exact ⟨inner :: tables, .next roll hsub hmore⟩
termination_by t.room

theorem Roller.selects_of_rollTable {roller : Roller σ} {t : Table} {s s' : σ} {o : Outcome}
    (h : roller.rollTable t s = some (.ok o, s')) :
    ∃ tables, Selects (t :: tables) o.selections := by
  obtain ⟨roll, mid, -, h⟩ := bind_eq_some.mp h
  exact roller.selects_of_resolve t h

/-! ### Outcomes -/

theorem Table.Regular.select {t : Table} (h : t.Regular limits) (roll : Evaluated)
    (value : Int) : (t.select roll value).Regular limits where
  depth_le := h.depth_le
  buildable := h.buildable
  description_free := h.tidy.description_free
  text_free := h.tidy.label_free (t.entryFor_mem value)

theorem Selects.regular {tables : List Table} {selections : List Selection}
    (h : Selects tables selections) (ht : ∀ t ∈ tables.head?, t.Regular limits) :
    ∀ s ∈ selections, s.Regular limits := by
  induction h with
  | last roll plain =>
    intro s hs
    obtain rfl := List.mem_singleton.mp hs
    exact (ht _ rfl).select roll _
  | next roll inside more ih =>
    have hhead := ht _ rfl
    refine List.forall_mem_cons.mpr ⟨hhead.select roll _, ih ?_⟩
    rintro _ ⟨⟩
    exact (Table.encloses_of_entryFor inside).regular hhead

/-- The tables inside a table, however far inside, keep to the depth that the limits allow: each
lies one deeper than the table around it and has at least two outcomes, and the deepest have no dice
notation that could open another table. -/
structure Table.NestsWithin (t : Table) (limits : Limits) : Prop where
  depth_le : ∀ inner, Relation.ReflTransGen Encloses t inner → inner.depth ≤ limits.maxDepth
  deepest : ∀ inner, Relation.ReflTransGen Encloses t inner → inner.depth = limits.maxDepth →
    ∀ e ∈ inner.entries, inner.trigger? e = none
  one_deeper : ∀ owner inner, Relation.ReflTransGen Encloses t owner → owner.Encloses inner →
    inner.depth = owner.depth + 1 ∧ 2 ≤ inner.entries.length

/-- The selections of an outcome are those of tables inside one another, each as deep as it is far
from the first, and each takes one line of the text, indented by twice its depth. -/
structure Outcome.StepsDown (o : Outcome) (t : Table) (limits : Limits) : Prop where
  selects : ∃ tables, Selects (t :: tables) o.selections ∧ (t :: tables).IsChain Table.Encloses
  depth_eq : ∀ k (hk : k < o.selections.length), o.selections[k].depth = k
  depth_le : ∀ k < o.selections.length, k ≤ limits.maxDepth
  lines_eq : lines o.text.toList = o.selections.map (·.line.toList)
  indent_eq : ∀ k (hk : k < o.selections.length), indent o.selections[k].line.toList = 2 * k

theorem Table.Regular.nestsWithin {t : Table} (ht : t.Regular limits) : t.NestsWithin limits where
  depth_le _ h := (ht.inside h).depth_le
  deepest _ h hdepth e _ := (ht.inside h).trigger?_eq_none hdepth e
  one_deeper _ _ _ h := ⟨h.depth_eq, h.two_le_length⟩

theorem Selects.stepsDown {t : Table} {tables : List Table} {o : Outcome}
    (h : Selects (t :: tables) o.selections) (ht : t.Regular limits) (hzero : t.depth = 0) :
    o.StepsDown t limits := by
  have hregular : ∀ s ∈ o.selections, s.Regular limits := h.regular <| by
    rintro _ ⟨⟩
    exact ht
  have hdepth : ∀ k (hk : k < o.selections.length), o.selections[k].depth = k := by
    intro k hk
    rw [h.depth_getElem k hk, hzero, Nat.zero_add]
  refine ⟨⟨tables, h, h.isChain⟩, hdepth, fun k hk => ?_, ?_, fun k hk => ?_⟩
  · rw [← hdepth k hk]
    exact (hregular _ (List.getElem_mem hk)).depth_le
  · have htext : o.text.toList = joinLines (o.selections.map (·.line.toList)) := by
      rw [Outcome.text, String.toList_intercalate, List.map_map]
      rfl
    rw [htext]
    refine lines_joinLines fun l hl => ?_
    obtain ⟨s, hs, rfl⟩ := List.mem_map.mp hl
    exact (hregular s hs).isLine
  · rw [(hregular _ (List.getElem_mem hk)).indent_line, hdepth k hk]

/-- A table that has been built nests no deeper than the limits allow, and so does whatever comes of
rolling it. -/
theorem Table.nesting_bounded {header : List Char} {body : List (List Char)} {t : Table}
    (hbuilt : build header body limits = .ok t) :
    t.NestsWithin limits ∧ ∀ (roller : Roller σ) (s s' : σ) (o : Outcome),
      roller.rollTable t s = some (.ok o, s') → o.StepsDown t limits := by
  obtain ⟨ht, hzero⟩ := regular_of_build hbuilt
  refine ⟨ht.nestsWithin, fun roller s s' o hroll => ?_⟩
  obtain ⟨tables, h⟩ := Roller.selects_of_rollTable hroll
  exact h.stepsDown ht hzero

/-- Doors that are open lead on to a table inside the outcome, which is as deep as the limits allow
here. -/
theorem nesting_bounded_doors : ∃ t o, Table.build "d2 Doors".toList
      ["1. Locked".toList, "2. Open, d2 1 a corridor 2 a vault with d2 1 gold 2 dust".toList]
      { maxDepth := 1 } = .ok t ∧
    Roller.highest.rollTable t () = some (.ok o, ()) ∧ o.selections.length = 2 ∧
    t.NestsWithin { maxDepth := 1 } ∧ o.StepsDown t { maxDepth := 1 } := by
  have hfacts : (Table.build "d2 Doors".toList
      ["1. Locked".toList, "2. Open, d2 1 a corridor 2 a vault with d2 1 gold 2 dust".toList]
      { maxDepth := 1 }).toOption.any (fun t => (Roller.highest.rollTable t ()).any fun r =>
        r.1.toOption.any fun o => o.selections.length = 2) = true := by decide +kernel
  obtain ⟨t, hbuilt, hfacts⟩ := (Option.any_eq_true _ _).mp hfacts
  obtain ⟨⟨r, ⟨⟩⟩, hroll, hfacts⟩ := (Option.any_eq_true _ _).mp hfacts
  obtain ⟨o, ho, hlength⟩ := (Option.any_eq_true _ _).mp hfacts
  obtain rfl : r = .ok o := toOption_eq_some.mp ho
  have hbuilt := toOption_eq_some.mp hbuilt
  obtain ⟨hnests, hsteps⟩ := Table.nesting_bounded hbuilt
  have hdown := hsteps Roller.highest () () o hroll
  exact ⟨t, o, hbuilt, hroll, of_decide_eq_true hlength, hnests, hdown⟩

end DiceTables
