import DiceTables.Proofs.Building
import DiceTables.Proofs.Draft
import DiceTables.Table.Locate

/-!
Higher limits lose nothing. A limit only ever refuses what exceeds it, so what is read under some
limits is read in the same way under limits none of which is lower. Where a text is cut into blocks
no limit is asked for at all; hence the tables of a text under the higher limits are those under the
lower ones and perhaps some more between them.
-/

namespace DiceTables

/-- None of the upper limits is lower. -/
structure Limits.AtMost (lower upper : Limits) : Prop where
  maxDice : lower.maxDice ≤ upper.maxDice
  maxSides : lower.maxSides ≤ upper.maxSides
  maxTerms : lower.maxTerms ≤ upper.maxTerms
  maxDepth : lower.maxDepth ≤ upper.maxDepth
  maxFanOut : lower.maxFanOut ≤ upper.maxFanOut

variable {lower upper : Limits}

/-! ### Dice and expressions -/

/-- Only two of the rules for dice name a limit, and each of them is an upper bound. -/
theorem Dice.Request.Allowed.raise {r : Dice.Request} (h : r.Allowed lower)
    (hlimits : lower.AtMost upper) : r.Allowed upper where
  one_le_count := h.one_le_count
  two_le_sides := h.two_le_sides
  count_le := h.count_le.trans (UInt16.le_iff_toNat_le.mp hlimits.maxDice)
  sides_le := h.sides_le.trans (UInt16.le_iff_toNat_le.mp hlimits.maxSides)
  keep_between := h.keep_between

namespace Limits.AtMost

variable (hlimits : lower.AtMost upper)
include hlimits

theorem buildDice {r : Dice.Request} {d : Dice} (h : r.build lower = .ok d) :
    r.build upper = .ok d := by
  have hallowed : r.Allowed upper := (Dice.Request.of_build_eq_ok h).1.raise hlimits
  obtain ⟨d', hd'⟩ := Dice.Request.allowed_iff_exists_build.mp hallowed
  have hsame : d.request = d'.request :=
    (Dice.Request.eq_request_of_build h).symm.trans (Dice.Request.eq_request_of_build hd')
  rw [Dice.request_inj hsame]
  exact hd'

theorem buildTerm {d : TermDraft} {t : Term} (h : d.build lower = .ok t) :
    d.build upper = .ok t := by
  cases d with
  | num n => exact h
  | dice r =>
    obtain ⟨dice, hdice, rfl⟩ := map_eq_ok.mp h
    rw [mapError_eq_ok] at hdice
    exact map_eq_ok.mpr ⟨dice, mapError_eq_ok.mpr (hlimits.buildDice hdice), rfl⟩

theorem buildExpr {d : ExprDraft} {e : Expr} (h : d.build lower = .ok e) :
    d.build upper = .ok e := by
  obtain ⟨hcount, hfirst, hrest⟩ := ExprDraft.build_eq_ok.mp h
  refine ExprDraft.build_eq_ok.mpr ⟨?_, hlimits.buildTerm hfirst, ?_⟩
  · exact hcount.trans hlimits.maxTerms
  · exact hrest.imp fun p q ⟨hop, hterm⟩ => ⟨hop, hlimits.buildTerm hterm⟩

theorem readDice {s : List Char} {d : Dice} (h : Dice.ofNotation s lower = .ok d) :
    Dice.ofNotation s upper = .ok d := by
  obtain ⟨r, hread, hbuild⟩ := Dice.ofNotation_eq_ok.mp h
  exact Dice.ofNotation_eq_ok.mpr ⟨r, hread, hlimits.buildDice hbuild⟩

theorem readExpr {s : List Char} {e : Expr} (h : Expr.ofNotation s lower = .ok e) :
    Expr.ofNotation s upper = .ok e := by
  obtain ⟨halphabet, d, hread, hbuild⟩ := Expr.ofNotation_eq_ok.mp h
  exact Expr.ofNotation_eq_ok.mpr ⟨halphabet, d, hread, hlimits.buildExpr hbuild⟩

end Limits.AtMost

/-! ### Tables -/

namespace Table

/-- What a table says: its description, its expression with the range of its values, and for each
outcome its numbers and its text. -/
def contents (t : Table) : String × Expr × (Int × Int) × List (Int × Int × String) :=
  (t.description, t.expr, (t.low, t.high), t.entries.map fun e => (e.lo, e.hi, e.text))

/-- A table that is built is built under higher limits as well, and says the same. -/
theorem build_raise (hlimits : lower.AtMost upper) {header : List Char} {body : List (List Char)}
    {t : Table} (h : build header body lower = .ok t) :
    ∃ t', build header body upper = .ok t' ∧ t'.contents = t.contents := by
  obtain ⟨parts, hparts, hexpr, hdescription, hentries, -, -⟩ := build_eq_ok h
  have hread : Expr.ofNotation parts.formula upper = .ok t.expr := hlimits.readExpr hexpr
  have hne : Entry.ofLines t.low body ≠ [] := hentries ▸ t.entries_ne_nil
  obtain ⟨t', ht'⟩ := exists_build hparts hread t.domain_eq hne
  refine ⟨t', ht', ?_⟩
  obtain ⟨parts', hparts', hexpr', hdescription', hentries', -, -⟩ := build_eq_ok ht'
  obtain rfl : parts = parts' := Option.some.inj (hparts.symm.trans hparts')
  have hsameExpr : t'.expr = t.expr := Except.ok.inj (hexpr'.symm.trans hread)
  have hsameRange : (t'.low, t'.high) = (t.low, t.high) := by
    have hdomain := t'.domain_eq
    rw [hsameExpr, t.domain_eq] at hdomain
    exact (Except.ok.inj hdomain).symm
  have hsameEntries : t'.entries = t.entries := by
    rw [hentries', hentries, (Prod.mk.inj hsameRange).1]
  simp only [contents, hdescription', hdescription, hsameExpr, hsameRange, hsameEntries]

end Table

/-- What is picked from a list is still there, in the same order, if more is picked and each pick keeps
its key. -/
theorem map_filterMap_sublist {α β γ : Type} {few more : α → Option β} {key : β → γ}
    (h : ∀ a b, few a = some b → ∃ b', more a = some b' ∧ key b' = key b) (l : List α) :
    ((l.filterMap few).map key).Sublist ((l.filterMap more).map key) := by
  induction l with
  | nil => simp
  | cons a l ih =>
    cases hfew : few a with
    | none =>
      have hskip : (l.filterMap more).Sublist ((a :: l).filterMap more) :=
        (List.sublist_cons_self a l).filterMap more
      rw [List.filterMap_cons_none hfew]
      exact ih.trans (hskip.map key)
    | some b =>
      obtain ⟨b', hmore, hkey⟩ := h a b hfew
      rw [List.filterMap_cons_some hfew, List.filterMap_cons_some hmore, List.map_cons, List.map_cons,
        hkey]
      exact ih.cons_cons (key b)

/-- Whatever is read under some limits is read under higher ones, with the same result: dice,
expressions, and the tables of a text, which are found in the same order and say the same. -/
theorem higher_limits_lose_nothing (hlimits : lower.AtMost upper) (s : List Char) :
    (∀ d, Dice.ofNotation s lower = .ok d → Dice.ofNotation s upper = .ok d) ∧
    (∀ e, Expr.ofNotation s lower = .ok e → Expr.ofNotation s upper = .ok e) ∧
    ((Table.allIn s lower).map Table.contents).Sublist ((Table.allIn s upper).map Table.contents) := by
  refine ⟨fun d => hlimits.readDice, fun e => hlimits.readExpr, ?_⟩
  refine map_filterMap_sublist (fun b t ht => ?_) (Block.locate s)
  obtain ⟨t', ht', hsame⟩ := Table.build_raise hlimits (toOption_eq_some.mp ht)
  exact ⟨t', toOption_eq_some.mpr ht', hsame⟩

/-- With single dice only, the first of two tables is lost; the second is the same under both limits. -/
theorem coin_under_higher_limits :
    let lower : Limits := { maxDice := 1 }
    let s := "2d6 Loot\n2-12. Gold\n\nd2 Coin\n1. Heads\n2. Tails".toList
    lower.AtMost {} ∧ (Table.allIn s lower).map Table.text = ["d2 Coin"] ∧
      (Table.allIn s {}).map Table.text = ["2d6 Loot", "d2 Coin"] ∧
      ((Table.allIn s lower).map Table.contents).Sublist ((Table.allIn s {}).map Table.contents) := by
  intro lower s
  have hlimits : lower.AtMost {} := ⟨by decide, by decide, by decide, by decide, by decide⟩
  refine ⟨hlimits, by decide +kernel, by decide +kernel, ?_⟩
  exact (higher_limits_lose_nothing hlimits s).2.2

end DiceTables
