import DiceTables.Proofs.Building
import DiceTables.Proofs.HeaderGrammar
import DiceTables.Proofs.Lines

/-!
Tables as texts. A table is written as a header, which is its expression and its description, and one
line for each outcome. Noise is only dropped at the ends of a line and of the parts of a line, so a
description and outcomes that have none at their ends are found again as they are, whatever digits
and dashes they hold. Only what would be read as a keep mode must not come right after the
expression. The main statement is that such a text is read back as the very same table.
-/

namespace DiceTables

open Text Scanner Notation

variable {limits : Limits}

/-! ### Writing tables -/

/-- A text that stands in a table as it is: on one line, with no noise at either end. -/
structure IsFree (t : List Char) : Prop where
  noBreak : '\n' ∉ t
  first : ∀ c ∈ t.head?, isNoise c = false
  last : ∀ c ∈ t.getLast?, isNoise c = false

theorem isFree_iff {t : List Char} : IsFree t ↔
    '\n' ∉ t ∧ t.head?.all (!isNoise ·) = true ∧ t.getLast?.all (!isNoise ·) = true := by
  simp only [Option.all_eq_true, Bool.not_eq_true']
  constructor
  · intro h
    exact ⟨h.noBreak, h.first, h.last⟩
  · rintro ⟨hbreak, hfirst, hlast⟩
    exact ⟨hbreak, hfirst, hlast⟩

instance (t : List Char) : Decidable (IsFree t) := decidable_of_iff _ isFree_iff.symm

/-- A text that would go on the dice before it with a keep mode. -/
def StartsLikeKeep (t : List Char) : Prop := ∃ letter blanks digit rest,
  (letter = 'v' ∨ letter = 'V') ∧ (∀ c ∈ blanks, isBlank c = true) ∧ isDecimalDigit digit = true ∧
  t = letter :: (blanks ++ digit :: rest)

/-- The expression ends with a group of dice that has no keep mode. -/
def Expr.EndsOpen (e : Expr) : Prop :=
  ∃ d, e.terms.getLast? = some (.dice d) ∧ d.keep = .all

/-- The header of a table with a description. -/
def headerLine (e : Expr) (description : String) : String := e.text ++ " " ++ description

/-- The line of an outcome. -/
def Entry.line (x : Entry) : String :=
  (if x.lo = x.hi then toString x.lo else toString x.lo ++ "-" ++ toString x.hi) ++ ". " ++ x.text

/-- A table as a text. -/
def tableText (e : Expr) (description : String) (entries : List Entry) : List Char :=
  joinLines ((headerLine e description).toList :: entries.map fun x => x.line.toList)

/-! ### Free texts -/

namespace IsFree

variable {t : List Char}

theorem stops (h : IsFree t) : Stops isNoise t := h.first

theorem stops_reverse (h : IsFree t) : Stops isNoise t.reverse := by
  intro c hc
  rw [List.head?_reverse] at hc
  exact h.last c hc

theorem stops_blank (h : IsFree t) : Stops isBlank t := h.stops.mono fun _ => isNoise_of_isBlank

/-- What trimming leaves after the first part of a line has no line break. -/
theorem noBreak_of_rest {rest : List Char} (h : IsFree t) (filler : List Char)
    (hfiller : '\n' ∉ filler) (hrest : rest = [] ∨ rest = filler ++ t) : '\n' ∉ rest := by
  rcases hrest with rfl | rfl
  · exact List.not_mem_nil
  · exact List.mem_append.not.mpr (not_or.mpr ⟨hfiller, h.noBreak⟩)

end IsFree

theorem strip_trim (s : List Char) : strip (trim s) = strip s :=
  trimWhile_trimWhile (fun _ h => isNoise_of_isBlank h) s

/-! ### Headers -/

namespace Expr

variable {e : Expr}

theorem each_form_isDecimalRun (he : ∀ t ∈ e.terms, t.Buildable limits) :
    e.form.Each fun _ => IsDecimalRun :=
  (proper_form he).mono fun _ _ h => h.isRun.isDecimalRun

theorem toList_text_ne_nil (he : ∀ t ∈ e.terms, t.Buildable limits) : e.text.toList ≠ [] :=
  (writtenAs_text he).ne_nil (each_form_isDecimalRun he)

/-- The text of an expression can stand on a line with other texts. -/
theorem isFree_text (he : ∀ t ∈ e.terms, t.Buildable limits) : IsFree e.text.toList where
  noBreak hmem := by
    rcases plain_text he _ hmem with hblank | hplain
    · exact absurd hblank (by decide)
    · exact absurd hplain (by decide)
  first := by
    have hstops := (writtenAs_text he).stops noise_apart_digit.symm Line.dieLetter_apart_noise
      (each_form_isDecimalRun he) []
    rwa [List.append_nil] at hstops
  last := by
    have hstops := (writtenAs_text he).stops_reverse noise_apart_digit.symm
      (each_form_isDecimalRun he)
    rwa [Stops, List.head?_reverse] at hstops

end Expr

namespace Line

/-- A blank and a free text are read as a keep mode just if the text starts like one. -/
theorem keepMark_eq_none_iff {t : List Char} (h : IsFree t) :
    keepMark (' ' :: t) = none ↔ ¬ StartsLikeKeep t := by
  have hblank : ∀ c ∈ [' '], isBlank c = true := List.forall_mem_singleton.mpr rfl
  rw [iff_not_comm, ← Ne, Option.ne_none_iff_exists']
  constructor
  · rintro ⟨letter, blanks, digit, more, hletter, hblanks, hdigit, rfl⟩
    obtain ⟨digits, rest, hdigits, hsplit, hstops⟩ : ∃ digits rest, IsDecimalRun digits ∧
        digit :: more = digits ++ rest ∧ Stops isDecimalDigit rest :=
      ⟨digit :: more.takeWhile isDecimalDigit, more.dropWhile isDecimalDigit,
        ⟨List.cons_ne_nil _ _,
          List.forall_mem_cons.mpr ⟨hdigit, fun c hc => List.mem_takeWhile_imp hc⟩⟩,
        by rw [List.cons_append, List.takeWhile_append_dropWhile], stops_dropWhile more⟩
    have hsign : isKeepSign letter = true := by
      rcases hletter with rfl | rfl <;> rfl
    have hread := spaced_append hsign (of_isKeepSign hsign).1 ⟨[' '], blanks, hblank, hblanks, rfl⟩
      (hdigits.stops blank_apart_digit.symm rest) (run1_append hdigits hstops)
    rw [← hsplit] at hread
    exact ⟨_, by simpa [keepMark] using hread⟩
  · rintro ⟨⟨taken, rest⟩, hread⟩
    obtain ⟨c, after, between, last, hc, hafter, rfl, hlast⟩ := exists_of_spaced_append
      keepSign_apart_blank hblank h.stops_blank hread
    obtain ⟨hne, rfl, hdigits, -⟩ := run1_eq_some.mp hlast
    obtain ⟨digit, more, rfl⟩ := List.exists_cons_of_ne_nil hne
    have hletter : c = 'v' ∨ c = 'V' := by
      simp only [isKeepSign, Bool.or_eq_true, decide_eq_true_eq] at hc
      rcases hc with hletter | rfl
      · exact hletter
      · exact absurd (h.first '^' rfl) (by decide +kernel)
    exact ⟨c, after, digit, more ++ rest, hletter, hafter, hdigits _ List.mem_cons_self, by simp⟩

theorem exists_lastTerm_form : ∀ (t : Term) (rest : List (Op × Term)),
    ∃ u, (t :: rest.map (·.2)).getLast? = some u ∧
      lastTerm t.form (rest.map fun p => (p.1, p.2.form)) = u.form
  | t, [] => ⟨t, rfl, rfl⟩
  | t, (op, t') :: rest => by
    obtain ⟨u, hlast, hform⟩ := exists_lastTerm_form t' rest
    exact ⟨u, by rw [List.map_cons, List.getLast?_cons_cons, hlast], hform⟩

/-- A free description ends the expression before it, unless it starts like a keep mode and the
expression could take one. -/
theorem ends_of_isFree {e : Expr} {t : List Char} (h : IsFree t)
    (hkeep : ¬ (e.EndsOpen ∧ StartsLikeKeep t)) :
    EndsTerm (lastTerm e.form.first e.form.rest) (' ' :: t) ∧ link (' ' :: t) = none := by
  have hblank : ∀ c ∈ [' '], isBlank c = true := List.forall_mem_singleton.mpr rfl
  refine ⟨⟨.cons (by decide +kernel) _, .cons (by decide) _, fun w hw hnone => ?_⟩, ?_⟩
  · obtain ⟨u, hlast, hform⟩ := exists_lastTerm_form e.first e.rest
    have hopen : e.EndsOpen := by
      cases u with
      | num n => cases hform.symm.trans hw
      | dice d =>
        cases hform.symm.trans hw
        exact ⟨d, hlast, Keep.form_eq_none_iff.mp hnone⟩
    exact (keepMark_eq_none_iff h).mpr fun hstarts => hkeep ⟨hopen, hstarts⟩
  · rw [Option.eq_none_iff_forall_ne_some]
    rintro ⟨taken, rest⟩ hread
    obtain ⟨c, after, between, last, hc, -, rfl, -⟩ := exists_of_spaced_append
      opSign_apart_blank hblank h.stops_blank hread
    have hnoise := h.first c rfl
    rw [(of_isOpSign hc).2.1] at hnoise
    cases hnoise

theorem header?_trim (line : List Char) : header? (trim line) = header? line := by
  rw [header?, strip_trim, header?]

/-- A header is read as it is written, unless the expression takes a keep mode from the
description. -/
theorem header?_headerLine_of_not_open {e : Expr} {description : String}
    (hdice : e.first.isDice = true) (he : ∀ t ∈ e.terms, t.Buildable limits)
    (hfree : IsFree description.toList)
    (hkeep : ¬ (e.EndsOpen ∧ StartsLikeKeep description.toList)) :
    header? (headerLine e description).toList = some ⟨e.text.toList, description.toList⟩ := by
  have hwritten := Expr.writtenAs_text he
  have hruns := Expr.each_form_isDecimalRun he
  have htext := Expr.isFree_text he
  obtain ⟨rest, hstrip, hrest, hdescription⟩ := exists_trimWhile_append [' ']
    (Expr.toList_text_ne_nil he) htext.stops htext.stops_reverse
    (List.forall_mem_singleton.mpr rfl) hfree.stops hfree.stops_reverse
  have hends : EndsTerm (lastTerm e.form.first e.form.rest) rest ∧ link rest = none := by
    rcases hrest with rfl | rfl
    · exact ⟨⟨.nil, .nil, fun _ _ _ => rfl⟩, rfl⟩
    · exact ends_of_isFree hfree hkeep
  have hform : ∃ (d : DiceForm) (links : List (Op × TermForm)), e.form = ⟨.dice d, links⟩ := by
    obtain ⟨_ | d, rest⟩ := e
    · cases hdice
    · exact ⟨_, _, rfl⟩
  obtain ⟨d, links, hform⟩ := hform
  rw [hform] at hwritten hruns hends
  have hread := formula_append hruns hwritten hends.1 hends.2
  have hline : (headerLine e description).toList =
      e.text.toList ++ ([' '] ++ description.toList) := by
    simp [headerLine]
  have hbreak := hfree.noBreak_of_rest [' '] (by decide) hrest
  rw [header?, hline, strip, hstrip]
  simp [hread, hbreak, strip, hdescription]

/-- A header is read as it is written. -/
theorem header?_headerLine {e : Expr} {description : String} (hdice : e.first.isDice = true)
    (he : ∀ t ∈ e.terms, t.Buildable limits) (hfree : IsFree description.toList)
    (hkeep : ¬ StartsLikeKeep description.toList) :
    header? (headerLine e description).toList = some ⟨e.text.toList, description.toList⟩ :=
  header?_headerLine_of_not_open hdice he hfree fun h => hkeep h.2

end Line

/-! ### Outcomes -/

namespace Line

/-- What comes after the numbers of an outcome does not go on with them. -/
theorem stops_of_rest {text rest : List Char} (hfree : IsFree text)
    (h : rest = [] ∨ rest = ['.', ' '] ++ text) :
    Stops isDecimalDigit rest ∧ Stops isBlank rest ∧ Stops isDash rest ∧ '\n' ∉ rest := by
  have hbreak := hfree.noBreak_of_rest ['.', ' '] (by decide) h
  rcases h with rfl | rfl
  · exact ⟨.nil, .nil, .nil, hbreak⟩
  · exact ⟨.cons (by decide +kernel) _, .cons (by decide +kernel) _, .cons (by decide) _, hbreak⟩

theorem rangeEnd_eq_none {s : List Char} (hblank : Stops isBlank s) (hdash : Stops isDash s) :
    rangeEnd s = none := by
  have hrun : run isBlank s = some ([], s) := run_eq_some.mpr ⟨rfl, by simp, hblank⟩
  simp [rangeEnd, Scanner.sequence, hrun, run1_eq_none hdash]

theorem rangeEnd_dash {digits rest : List Char} (h : IsDecimalRun digits)
    (hrest : Stops isDecimalDigit rest) :
    rangeEnd ('-' :: (digits ++ rest)) = some (digits, rest) := by
  have hbefore : run isBlank ('-' :: (digits ++ rest)) = some ([], '-' :: (digits ++ rest)) :=
    run_eq_some.mpr ⟨rfl, by simp, .cons (by decide +kernel) _⟩
  have hdash : run1 isDash ('-' :: (digits ++ rest)) = some (['-'], digits ++ rest) :=
    run1_eq_some.mpr
      ⟨by decide, rfl, List.forall_mem_singleton.mpr rfl, h.stops dash_apart_digit.symm _⟩
  have hafter : run isBlank (digits ++ rest) = some ([], digits ++ rest) :=
    run_eq_some.mpr ⟨rfl, by simp, h.stops blank_apart_digit.symm _⟩
  simp [rangeEnd, Scanner.sequence, hbefore, hdash, hafter, run1_append h hrest]

/-- An outcome with a single number is read as it is written. -/
theorem numbered?_single {digits text : List Char} (h : IsDecimalRun digits) (hfree : IsFree text) :
    numbered? (digits ++ (['.', ' '] ++ text)) = some ⟨digits, none, text⟩ := by
  have hstops := h.stops noise_apart_digit.symm []
  have hlast := h.stops_reverse noise_apart_digit.symm []
  rw [List.append_nil] at hstops
  obtain ⟨rest, hstrip, hrest, htext⟩ := exists_trimWhile_append ['.', ' '] h.1 hstops
    hlast (List.all_eq_true.mp rfl) hfree.stops hfree.stops_reverse
  obtain ⟨hdigit, hblank, hdash, hbreak⟩ := stops_of_rest hfree hrest
  rw [numbered?, strip, hstrip]
  simp [run1_append h hdigit, rangeEnd_eq_none hblank hdash, hbreak, strip, htext]

/-- An outcome with a range of numbers is read as it is written. -/
theorem numbered?_range {first last text : List Char} (hfirst : IsDecimalRun first)
    (hlast : IsDecimalRun last) (hfree : IsFree text) :
    numbered? ((first ++ '-' :: last) ++ (['.', ' '] ++ text)) = some ⟨first, some last, text⟩ := by
  have hstops := hfirst.stops noise_apart_digit.symm ('-' :: last)
  have hstops' : Stops isNoise (first ++ '-' :: last).reverse := by
    have := hlast.stops_reverse noise_apart_digit.symm (first ++ ['-'])
    rwa [List.append_assoc] at this
  obtain ⟨rest, hstrip, hrest, htext⟩ := exists_trimWhile_append ['.', ' ']
    (List.append_ne_nil_of_left_ne_nil hfirst.1 _) hstops hstops'
    (List.all_eq_true.mp rfl) hfree.stops hfree.stops_reverse
  obtain ⟨hdigit, -, -, hbreak⟩ := stops_of_rest hfree hrest
  have hdash : Stops isDecimalDigit ('-' :: (last ++ rest)) := .cons (by decide +kernel) _
  have hrun := run1_append hfirst hdash
  rw [numbered?, strip, hstrip, List.append_assoc, List.cons_append]
  simp [hrun, rangeEnd_dash hlast hdigit, hbreak, strip, htext]

end Line

namespace Entry

theorem number?_toDigits {n : Int} (hzero : 0 ≤ n) (hgreatest : n ≤ Whole.greatest) :
    number? (Nat.toDigits 10 n.toNat) = some n := by
  have hrun : IsRun (Nat.toDigits 10 n.toNat) := (proper_toDigits (Nat.lt_succ_self _)).isRun
  have hnumeral : numeral? (Nat.toDigits 10 n.toNat) = some n.toNat := by
    have hvalue := valueOf_toDigits n.toNat
    rw [valueOf] at hvalue
    have hall : (Nat.toDigits 10 n.toNat).all Char.isDigit = true := List.all_eq_true.mpr hrun.2
    simp [numeral?, hrun.1, hall, hvalue]
  have hle : n.toNat ≤ Whole.greatest.toNat := Int.toNat_le_toNat hgreatest
  simp [number?, numeralUpTo?, hnumeral, Option.filter, hle, hzero]

theorem between_self (x : Entry) : between x.lo x.hi x.text.toList = x := by
  obtain ⟨lo, hi, text, hle⟩ := x
  simp [between, hle]

theorem toList_line {x : Entry} (h : x.FromNumerals) :
    x.line.toList = (if x.lo = x.hi then Nat.toDigits 10 x.lo.toNat
      else Nat.toDigits 10 x.lo.toNat ++ '-' :: Nat.toDigits 10 x.hi.toNat) ++
        (['.', ' '] ++ x.text.toList) := by
  have hlo := toList_text_num h.1
  have hhi := toList_text_num (h.1.trans x.lo_le_hi)
  rw [Term.text] at hlo hhi
  have hstop : ". ".toList = ['.', ' '] := rfl
  have hdash : "-".toList = ['-'] := rfl
  rw [line, String.toList_append, String.toList_append, hstop, List.append_assoc]
  congr 1
  split
  · exact hlo
  · rw [String.toList_append, String.toList_append, hlo, hhi, hdash, List.append_assoc]
    rfl

theorem ofLine?_trim (line : List Char) : ofLine? (trim line) = ofLine? line := by
  rw [ofLine?, Line.numbered?, strip_trim, ofLine?, Line.numbered?]

/-- An outcome is read back from its line. -/
theorem ofLine?_line {x : Entry} (h : x.FromNumerals) (hfree : IsFree x.text.toList) :
    ofLine? x.line.toList = some x := by
  obtain ⟨hlo, hhi⟩ := h
  have hle := x.lo_le_hi
  have hrun : ∀ n : Int, IsDecimalRun (Nat.toDigits 10 n.toNat) :=
    fun n => (proper_toDigits (Nat.lt_succ_self _)).isRun.isDecimalRun
  have hfirst := number?_toDigits hlo (hle.trans hhi)
  have hlast := number?_toDigits (hlo.trans hle) hhi
  have hself := between_self x
  rw [toList_line ⟨hlo, hhi⟩]
  split
  · next heq =>
    rw [← heq] at hself
    rw [ofLine?, Line.numbered?_single (hrun _) hfree]
    simp [hfirst, hself]
  · rw [ofLine?, Line.numbered?_range (hrun _) (hrun _) hfree]
    simp [hfirst, hlast, hself]

end Entry

/-! ### Reading tables back -/

theorem Entry.noBreak_line {x : Entry} (h : x.FromNumerals) (hfree : IsFree x.text.toList) :
    '\n' ∉ x.line.toList := by
  have hdigits : ∀ n, '\n' ∉ Nat.toDigits 10 n :=
    fun n hmem => absurd (isDigit_of_mem_toDigits _ hmem) (by decide)
  have hback : '\n' ∉ ['.', ' '] ++ x.text.toList := by simpa using hfree.noBreak
  rw [Entry.toList_line h]
  refine List.mem_append.not.mpr (not_or.mpr ⟨?_, hback⟩)
  split
  · exact hdigits _
  · simpa using ⟨hdigits _, hdigits _⟩

theorem noBreak_headerLine {e : Expr} {description : String}
    (he : ∀ t ∈ e.terms, t.Buildable limits) (hfree : IsFree description.toList) :
    '\n' ∉ (headerLine e description).toList := by
  simpa [headerLine] using ⟨(Expr.isFree_text he).noBreak, hfree.noBreak⟩

/-- The outcomes of a table are found again among its lines. -/
theorem Entry.ofLines_lines (low : Int) {entries : List Entry} (hne : entries ≠ [])
    (h : ∀ x ∈ entries, x.FromNumerals ∧ IsFree x.text.toList) :
    ofLines low (((entries.map fun x => x.line.toList).map trim).filter (!·.isEmpty)) = entries := by
  have hread : ∀ x ∈ entries, ofLine? (trim x.line.toList) = some x :=
    fun x hx => by rw [ofLine?_trim, ofLine?_line (h x hx).1 (h x hx).2]
  -- no line is dropped, because nothing is read on an empty one
  have hkept : ∀ line ∈ (entries.map fun x => x.line.toList).map trim, (!line.isEmpty) = true := by
    intro line hline
    rw [List.map_map] at hline
    obtain ⟨x, hx, rfl⟩ := List.mem_map.mp hline
    have hne : trim x.line.toList ≠ [] := by
      refine trim_ne_nil ofLine?_trim rfl ?_
      rw [ofLine?_line (h x hx).1 (h x hx).2]
      rfl
    simpa using hne
  have hnumbered :
      ((entries.map fun x => x.line.toList).map trim).filterMap ofLine? = entries := by
    rw [List.map_map, List.filterMap_map]
    calc entries.filterMap (fun x => ofLine? (trim x.line.toList)) = entries.filterMap some :=
          List.filterMap_congr hread
      _ = entries := List.filterMap_some
  rw [List.filter_eq_self.mpr hkept, ofLines, hnumbered]
  cases entries with
  | nil => exact absurd rfl hne
  | cons x entries => rfl

/-- A table that is written as a text is read back as the same table: with the very expression, the
description, and all outcomes in their order. -/
theorem table_text_reads_back (limits : Limits) {e : Expr} {description : String}
    {entries : List Entry} (hdice : e.first.isDice = true)
    (hread : ∃ s, Expr.ofNotation s limits = .ok e) (hdomain : ∃ range, e.domain = .ok range)
    (hdescription : IsFree description.toList) (hkeep : ¬ StartsLikeKeep description.toList)
    (hne : entries ≠ [])
    (hentries : ∀ x ∈ entries, 0 ≤ x.lo ∧ x.hi ≤ Whole.greatest ∧ IsFree x.text.toList) :
    ∃ t, Table.ofText (tableText e description entries) limits = .ok t ∧
      t.expr = e ∧ t.description = description ∧ t.entries = entries := by
  obtain ⟨s, hread⟩ := hread
  obtain ⟨⟨low, high⟩, hdomain⟩ := hdomain
  have he := Expr.buildable_of_ofNotation hread
  have hparts := Line.header?_headerLine hdice he.terms hdescription hkeep
  replace hentries : ∀ x ∈ entries, x.FromNumerals ∧ IsFree x.text.toList :=
    fun x hx => and_assoc.mpr (hentries x hx)
  have hlines := Entry.ofLines_lines low hne hentries
  rw [← Line.header?_trim] at hparts
  have hnoBreak : ∀ l ∈ (headerLine e description).toList :: entries.map fun x => x.line.toList,
      '\n' ∉ l := by
    refine List.forall_mem_cons.mpr ⟨noBreak_headerLine he.terms hdescription, fun l hl => ?_⟩
    obtain ⟨x, hx, rfl⟩ := List.mem_map.mp hl
    exact Entry.noBreak_line (hentries x hx).1 (hentries x hx).2
  have hheader : (!(trim (headerLine e description).toList).isEmpty) = true := by
    cases htrim : trim (headerLine e description).toList with
    | nil =>
      rw [htrim] at hparts
      cases hparts
    | cons c line => rfl
  have hbuild : Table.ofText (tableText e description entries) limits =
      Table.build (trim (headerLine e description).toList)
        (((entries.map fun x => x.line.toList).map trim).filter (!·.isEmpty)) limits := by
    rw [Table.ofText, tableText, solidLines_joinLines hnoBreak, List.map_cons,
      List.filter_cons, if_pos hheader]
  obtain ⟨t, ht⟩ := Table.exists_build hparts he.ofNotation_text hdomain (by rwa [hlines])
  obtain ⟨parts, hparts', hexpr, htext, houtcomes, -⟩ := Table.build_eq_ok ht
  obtain rfl := Option.some.inj (hparts.symm.trans hparts')
  have hsame : t.expr = e := Except.ok.inj (hexpr.symm.trans he.ofNotation_text)
  have hlow : t.low = low := by
    have hrange := t.domain_eq.symm.trans (hsame ▸ hdomain)
    exact congrArg Prod.fst (Except.ok.inj hrange)
  refine ⟨t, hbuild.trans ht, hsame, by rw [htext, String.ofList_toList], ?_⟩
  rw [houtcomes, hlow, hlines]

/-- A description that starts with dice, outcomes that start with a range and with a keep mode, an
outcome without a text, and the greatest number there is: all come back. -/
theorem odd_table_text_reads_back :
    let d : Dice := { count := 1, sides := 6, keep := .all, one_le_count := by decide,
                      count_lt := by decide, two_le_sides := by decide, sides_lt := by decide,
                      one_le_kept := by decide, kept_le_count := by decide }
    let e : Expr := { first := .dice d, rest := [(.add, .num 1)] }
    let entries : List Entry := [⟨2, 2, "5-6 rats", by decide⟩, ⟨3, 7, "", by decide⟩,
      ⟨8, Whole.greatest, "v2", by decide⟩]
    String.ofList (tableText e "2d4 - 3 foes" entries) =
      "d6 + 1 2d4 - 3 foes\n2. 5-6 rats\n3-7. \n8-9223372036854775807. v2" ∧
    ∃ t, Table.ofText (tableText e "2d4 - 3 foes" entries) {} = .ok t ∧
      t.expr = e ∧ t.description = "2d4 - 3 foes" ∧ t.entries = entries := by
  intro d e entries
  have hkeep : ¬ StartsLikeKeep "2d4 - 3 foes".toList := by
    rintro ⟨_, _, _, _, rfl | rfl, -, -, heq⟩ <;> cases (List.cons.inj heq).1
  have hread : (Expr.ofNotation "d6+1".toList {}).toOption = some e := by decide +kernel
  have hdomain : e.domain.toOption = some (2, 7) := by decide +kernel
  exact ⟨by decide +kernel, table_text_reads_back {} rfl ⟨_, toOption_eq_some.mp hread⟩
    ⟨_, toOption_eq_some.mp hdomain⟩ (by decide +kernel) hkeep (by decide) (by decide +kernel)⟩

end DiceTables
