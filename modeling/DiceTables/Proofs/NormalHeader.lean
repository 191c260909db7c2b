import DiceTables.Proofs.Excerpts
import DiceTables.Proofs.HeaderNotation

/-!
The header of a table in its plainest form, `Table.text`, and what is read from it. The expression is
written with its blanks and letters set right, and the description comes after one blank. Where the
expression ends with a group of dice without a keep mode and the description starts like one, as in
`d6: V8 Engine`, the two run together and the header says something else than the table. In all other
cases the same table is built from it again.
-/

namespace DiceTables

open Text Scanner Notation

variable {limits : Limits}

/-! ### Expressions that could take a keep mode -/

/-- The text of an expression ends with that of its last term. -/
theorem Expr.exists_toList_text_append {e : Expr} {t : Term} (h : e.terms.getLast? = some t) :
    ∃ front, e.text.toList = front ++ t.text.toList := by
  obtain ⟨first, rest⟩ := e
  rw [toList_text]
  rcases List.eq_nil_or_concat rest with rfl | ⟨init, p, rfl⟩
  · obtain rfl : first = t := Option.some.inj h
    exact ⟨[], List.append_nil _⟩
  · have hterms : (Expr.mk first (init.concat p)).terms = (first :: init.map (·.2)) ++ [p.2] := by
      simp [terms]
    rw [hterms, List.getLast?_concat] at h
    have hlast : p.2 = t := Option.some.inj h
    refine ⟨first.text.toList ++ (init.flatMap fun p => ' ' :: p.1.symbol :: ' ' :: p.2.text.toList) ++
      [' ', p.1.symbol, ' '], ?_⟩
    rw [← hlast]
    simp

/-- The last number of an expression that could take a keep mode is one of sides. -/
theorem Expr.EndsOpen.exists_toList_text {e : Expr} (h : e.EndsOpen) :
    ∃ front digits, e.text.toList = front ++ 'd' :: digits ∧
      ∀ c ∈ digits, isDecimalDigit c = true := by
  obtain ⟨d, hlast, hall⟩ := h
  obtain ⟨front, htext⟩ := exists_toList_text_append hlast
  have hdigits : IsDecimalRun (Nat.toDigits 10 d.sides) :=
    (proper_toDigits (Nat.lt_succ_self _)).isRun.isDecimalRun
  refine ⟨front ++ d.form.count?.getD [], Nat.toDigits 10 d.sides, ?_, hdigits.2⟩
  rw [htext, Term.text, Dice.toList_text, DiceForm.text, Dice.form, hall, List.append_assoc]
  simp [Keep.form, DiceForm.keepText]

/-- An expression that is read from the notation of a header starts with dice. -/
theorem Expr.isDice_of_writtenAs {d : DiceForm} {links : List (Op × TermForm)} {t : List Char}
    {e : Expr} (hw : (ExprForm.mk (.dice d) links).Each fun _ => IsDecimalRun)
    (ht : (ExprForm.mk (.dice d) links).WrittenAs t) (h : Expr.ofNotation t limits = .ok e) :
    e.first.isDice = true := by
  obtain ⟨-, draft, hdraft, hbuild⟩ := Expr.ofNotation_eq_ok.mp h
  have hnative : ∀ c ∈ t, ¬ IsForeignDigit c := by
    by_contra hforeign
    rw [ofNotation_of_foreign ht hw hforeign] at h
    cases h
  have hrun := isRun_of_writtenAs ht hw hnative
  rw [ht.compact_eq hrun] at hdraft
  obtain ⟨w, hproper, rfl, htext⟩ := exists_of_exprDraft? hdraft
  obtain rfl := ExprForm.text_inj (hproper.mono fun _ _ => Proper.isRun) hrun htext
  obtain ⟨-, hfirst, -⟩ := ExprDraft.build_eq_ok.mp hbuild
  obtain ⟨hdice, -⟩ := TermDraft.of_build (d := .dice d.request) trivial hfirst
  rw [← Term.isDice_draft, ← hdice]
  rfl

namespace Line

/-! ### Descriptions that are found again -/

theorem strip_headerLine {e : Expr} {description : String} (he : ∀ t ∈ e.terms, t.Buildable limits)
    (hfree : IsFree description.toList) (hne : description.toList ≠ []) :
    strip (headerLine e description).toList = e.text.toList ++ ([' '] ++ description.toList) := by
  rw [strip, headerLine, String.toList_append, String.toList_append, List.append_assoc]
  refine trimWhile_of_stops ?_ ?_
  · exact (Expr.isFree_text he).stops.append_of_ne_nil (Expr.toList_text_ne_nil he) _
  · rw [← List.append_assoc, List.reverse_append]
    exact hfree.stops_reverse.append_of_ne_nil (by simpa using hne) _

/-- A description that is found again has left the expression before it whole. -/
theorem formula_of_description {e : Expr} {description : String} {parts : Header}
    (he : ∀ t ∈ e.terms, t.Buildable limits) (hfree : IsFree description.toList)
    (hne : description.toList ≠ [])
    (h : header? (headerLine e description).toList = some parts)
    (hsame : parts.description = description.toList) :
    formula (e.text.toList ++ ' ' :: description.toList) =
      some (e.text.toList, ' ' :: description.toList) := by
  obtain ⟨⟨notated, rest⟩, hread, h⟩ := Option.bind_eq_some_iff.mp h
  dsimp only at h
  split at h
  · cases h
  cases h
  rw [strip_headerLine he hfree hne] at hread
  obtain ⟨before, after, hrest, hbefore, hafter⟩ := exists_append_trimWhile_append isNoise rest
  have hdescription : trimWhile isNoise rest = description.toList := hsame
  have hnotated : Stops isNoise notated.reverse := by
    obtain ⟨d, links, hw, ht⟩ := exists_of_formula hread
    exact ht.stops_reverse noise_apart_digit.symm hw
  -- Noise is all that lies between the notation and the description, in either reading.
  have hsplit := takes_formula _ _ _ hread
  rw [hrest, hdescription] at hsplit
  obtain ⟨rfl, rfl, rfl⟩ := run_between_inj hbefore (List.forall_mem_singleton.mpr rfl) hafter
    hnotated (Expr.isFree_text he).stops_reverse hne hfree.stops_reverse hsplit.symm
  rw [hdescription, List.append_nil] at hrest
  rw [hrest] at hread
  exact hread

/-- Where an expression could take a keep mode and a description starts like one, the description is
not found again. -/
theorem description_ne_of_open {e : Expr} {description : String} {parts : Header}
    (he : ∀ t ∈ e.terms, t.Buildable limits) (hfree : IsFree description.toList)
    (hopen : e.EndsOpen) (hkeep : StartsLikeKeep description.toList)
    (h : header? (headerLine e description).toList = some parts) :
    parts.description ≠ description.toList := by
  intro hsame
  have hne : description.toList ≠ [] := by
    obtain ⟨letter, blanks, digit, rest, -, -, -, hstart⟩ := hkeep
    rw [hstart]
    exact List.cons_ne_nil _ _
  have hread := formula_of_description he hfree hne h hsame
  rcases leavesNoKeep_of_formula hread with hnone | ⟨front, c, digits, hdie, hdigit, hdigits, htext⟩
  · exact (keepMark_eq_none_iff hfree).mp hnone hkeep
  · obtain ⟨front', sides, htext', hsides⟩ := hopen.exists_toList_text
    have hlast := append_cons_run_inj hdigit (by decide +kernel) hdigits hsides
      (htext.symm.trans htext')
    rw [hlast.2.1] at hdie
    cases hdie

theorem header?_of_strip_eq {line line' : List Char} (h : strip line = strip line') :
    header? line = header? line' := by
  rw [header?, header?, h]

end Line

/-! ### Tables -/

namespace Table

variable {t : Table} {header : List Char} {body : List (List Char)}

/-- Where there is no description, the blank before it makes no difference. -/
theorem header?_text (t : Table) :
    Line.header? t.text.toList = Line.header? (headerLine t.expr t.description).toList := by
  refine Line.header?_of_strip_eq ?_
  rw [text]
  split
  · next hempty =>
    rw [headerLine, String.isEmpty_iff.mp hempty, String.append_empty, String.toList_append]
    exact (trimWhile_append_of_forall _ (List.forall_mem_singleton.mpr rfl)).symm
  · rfl

/-- A table is built from any header that is read as its expression and its description. -/
theorem exists_build_same (he : t.expr.Buildable limits)
    (hentries : t.entries = Entry.ofLines t.low body)
    (hparts : Line.header? header = some ⟨t.expr.text.toList, t.description.toList⟩) :
    ∃ t', build header body limits = .ok t' ∧ t'.expr = t.expr ∧ t'.description = t.description ∧
      t'.entries = t.entries := by
  obtain ⟨t', ht'⟩ := exists_build hparts he.ofNotation_text t.domain_eq
    (hentries ▸ t.entries_ne_nil)
  obtain ⟨parts, hparts', hexpr, hdescription, hentries', -⟩ := build_eq_ok ht'
  obtain rfl := Option.some.inj (hparts.symm.trans hparts')
  have hsame : t'.expr = t.expr := Except.ok.inj (hexpr.symm.trans he.ofNotation_text)
  have hlow : t'.low = t.low := by
    have hrange := t'.domain_eq.symm.trans (hsame ▸ t.domain_eq)
    exact congrArg Prod.fst (Except.ok.inj hrange)
  exact ⟨t', ht', hsame, by rw [hdescription, String.ofList_toList], by rw [hentries', hlow, hentries]⟩

/-- The plainest header of a table makes the same table of the same lines, with the very expression,
description and outcomes, unless the expression ends with a group of dice without a keep mode and
the description starts like one. -/
theorem text_reads_back_iff (h : build header body limits = .ok t) :
    (∃ t', build t.text.toList body limits = .ok t' ∧ t'.expr = t.expr ∧
      t'.description = t.description ∧ t'.entries = t.entries) ↔
    ¬ (t.expr.EndsOpen ∧ StartsLikeKeep t.description.toList) := by
  obtain ⟨parts, hparts, hexpr, -, hentries, -⟩ := build_eq_ok h
  have he := Expr.buildable_of_ofNotation hexpr
  have hfree : IsFree t.description.toList := (tidy_of_build h).description_free
  constructor
  · rintro ⟨t', ht', -, hdescription, -⟩ ⟨hopen, hkeep⟩
    obtain ⟨parts', hparts', -, hdescription', -⟩ := build_eq_ok ht'
    rw [header?_text] at hparts'
    refine Line.description_ne_of_open he.terms hfree hopen hkeep hparts' ?_
    rw [← hdescription, hdescription', String.toList_ofList]
  · intro hkeep
    obtain ⟨d, links, hw, hwritten⟩ := Line.exists_of_header? hparts
    have hdice := Expr.isDice_of_writtenAs hw hwritten hexpr
    have hparts' := Line.header?_headerLine_of_not_open hdice he.terms hfree hkeep
    rw [← header?_text] at hparts'
    exact exists_build_same he hentries hparts'

/-- The last term is a number, so the description stays what it is. -/
theorem numbered_loot_reads_back : ∃ t t',
    build "2d6+1: v2 Loot".toList ["3-13. Gold".toList] {} = .ok t ∧ t.text = "2d6 + 1 v2 Loot" ∧
    build t.text.toList ["3-13. Gold".toList] {} = .ok t' ∧ t'.expr = t.expr ∧
    t'.description = t.description ∧ t'.entries = t.entries := by
  have hfacts : (build "2d6+1: v2 Loot".toList ["3-13. Gold".toList] {}).toOption.any (fun t =>
      t.text = "2d6 + 1 v2 Loot" ∧ t.expr.terms.getLast? = some (.num 1)) = true := by
    decide +kernel
  obtain ⟨t, hbuilt, hfacts⟩ := (Option.any_eq_true _ _).mp hfacts
  obtain ⟨htext, hlast⟩ := of_decide_eq_true hfacts
  have hbuilt := toOption_eq_some.mp hbuilt
  have hkeep : ¬ (t.expr.EndsOpen ∧ StartsLikeKeep t.description.toList) := by
    rintro ⟨⟨d, hdice, -⟩, -⟩
    cases hlast.symm.trans hdice
  obtain ⟨t', hbuilt', hsame⟩ := (text_reads_back_iff hbuilt).mpr hkeep
  exact ⟨t, t', hbuilt, htext, hbuilt', hsame⟩

/-- The name of an engine is taken for a keep mode that one die cannot have, and the mark in front of
some loot for one that two dice can. -/
theorem engine_not_read_back :
    (∃ t, build "d6: V8 Engine".toList ["1-6. Roars".toList] {} = .ok t ∧
      t.description = "V8 Engine" ∧
      build t.text.toList ["1-6. Roars".toList] {} =
        .error (.formula (.dice (.keepOutOfRange 8 1)))) ∧
    ∃ t t', build "2d6: v2 Loot".toList ["2-12. Gold".toList] {} = .ok t ∧
      t.description = "v2 Loot" ∧ build t.text.toList ["2-12. Gold".toList] {} = .ok t' ∧
      t'.description = "Loot" ∧ t'.expr ≠ t.expr := by
  have hengine : (build "d6: V8 Engine".toList ["1-6. Roars".toList] {}).toOption.any (fun t =>
      t.description = "V8 Engine" ∧ t.text = "d6 V8 Engine") = true := by decide +kernel
  have herror : build "d6 V8 Engine".toList ["1-6. Roars".toList] {} =
      .error (.formula (.dice (.keepOutOfRange 8 1))) := by decide +kernel
  have hloot : (build "2d6: v2 Loot".toList ["2-12. Gold".toList] {}).toOption.any (fun t =>
      t.description = "v2 Loot" ∧ t.text = "2d6 v2 Loot" ∧ t.expr.text = "2d6") = true := by
    decide +kernel
  have hother : (build "2d6 v2 Loot".toList ["2-12. Gold".toList] {}).toOption.any (fun t =>
      t.description = "Loot" ∧ t.expr.text = "2d6v2") = true := by decide +kernel
  obtain ⟨t, ht, hengine⟩ := (Option.any_eq_true _ _).mp hengine
  obtain ⟨hdescription, htext⟩ := of_decide_eq_true hengine
  refine ⟨⟨t, toOption_eq_some.mp ht, hdescription, htext ▸ herror⟩, ?_⟩
  obtain ⟨t, ht, hloot⟩ := (Option.any_eq_true _ _).mp hloot
  obtain ⟨hdescription, htext, hexpr⟩ := of_decide_eq_true hloot
  obtain ⟨t', ht', hother⟩ := (Option.any_eq_true _ _).mp hother
  obtain ⟨hdescription', hexpr'⟩ := of_decide_eq_true hother
  refine ⟨t, t', toOption_eq_some.mp ht, hdescription, htext ▸ toOption_eq_some.mp ht',
    hdescription', fun hsame => ?_⟩
  rw [hsame, hexpr] at hexpr'
  exact absurd hexpr' (by decide)

end Table

end DiceTables
