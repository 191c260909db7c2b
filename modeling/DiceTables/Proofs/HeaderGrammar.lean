import DiceTables.Proofs.HeaderForm
import DiceTables.Proofs.Scanning

/-!
What is read as the notation of a header. It is always a written form that starts with a group of
dice, and every such form is read as it is written, as long as what comes after it could not be part
of it. Nor is anything left that could be part of it: after a group of dice without a keep mode
there is none.
-/

namespace DiceTables

open Text Scanner

namespace Line

open Notation

variable {s taken rest : List Char}

/-! ### Signs between blanks -/

/-- The keep mode that may end a group of dice. -/
def keepMark : Scanner (List Char) :=
  sequence [run isBlank, one isKeepSign, run isBlank, run1 isDecimalDigit]

/-- An operator and the term after it. -/
def link : Scanner (List Char) :=
  sequence [run isBlank, one isOpSign, run isBlank, either dice (run1 isDecimalDigit)]

theorem dice_eq : dice =
    sequence [run isDecimalDigit, one isDieLetter, run1 isDecimalDigit, optional keepMark] := rfl

theorem formula_eq : formula = sequence [dice, repeated link] := rfl

/-- A sign between blanks and what comes after it. -/
theorem spaced_eq_some {isSign : Char → Bool} {a : Scanner (List Char)}
    (h : sequence [run isBlank, one isSign, run isBlank, a] s = some (taken, rest)) :
    ∃ c spaced last between, isSign c = true ∧ Spaced c spaced ∧ s = spaced ++ between ∧
      a between = some (last, rest) ∧ taken = spaced ++ last := by
  obtain ⟨before, s₁, _, hbefore, h₁, rfl⟩ := sequence_cons_eq_some.mp h
  obtain ⟨sign, s₂, _, hsign, h₂, rfl⟩ := sequence_cons_eq_some.mp h₁
  obtain ⟨after, s₃, _, hafter, h₃, rfl⟩ := sequence_cons_eq_some.mp h₂
  obtain ⟨last, s₄, _, hlast, h₄, rfl⟩ := sequence_cons_eq_some.mp h₃
  obtain ⟨rfl, rfl⟩ := sequence_nil_eq_some.mp h₄
  obtain ⟨c, hc, rfl, rfl⟩ := one_eq_some.mp hsign
  obtain ⟨rfl, hblanksBefore, -⟩ := run_eq_some.mp hbefore
  obtain ⟨rfl, hblanksAfter, -⟩ := run_eq_some.mp hafter
  exact ⟨c, before ++ c :: after, last, s₃, hc,
    ⟨before, after, hblanksBefore, hblanksAfter, rfl⟩, by simp, hlast, by simp⟩

/-- Where a text goes on after blanks, that must be with the sign. -/
theorem exists_of_spaced_append {isSign : Char → Bool} {a : Scanner (List Char)}
    {before tail : List Char} (hsign : Apart isSign isBlank)
    (hbefore : ∀ c ∈ before, isBlank c = true) (htail : Stops isBlank tail)
    (h : sequence [run isBlank, one isSign, run isBlank, a] (before ++ tail) = some (taken, rest)) :
    ∃ c after between last, isSign c = true ∧ (∀ d ∈ after, isBlank d = true) ∧
      tail = c :: (after ++ between) ∧ a between = some (last, rest) := by
  obtain ⟨c, _, last, between, hc, ⟨before', after, hbefore', hafter, rfl⟩, heq, hlast, -⟩ :=
    spaced_eq_some h
  rw [List.append_assoc, List.cons_append] at heq
  obtain ⟨-, htailEq⟩ := run_append_inj hbefore hbefore' htail (.cons (hsign c hc) _) heq
  exact ⟨c, after, between, last, hc, hafter, htailEq, hlast⟩

/-- A sign between blanks is read if what comes after it is. -/
theorem spaced_append {isSign : Char → Bool} {a : Scanner (List Char)} {c : Char}
    {spaced last : List Char} (hc : isSign c = true) (hblank : isBlank c = false)
    (hspaced : Spaced c spaced) (hlast : Stops isBlank (last ++ rest))
    (ha : a (last ++ rest) = some (last, rest)) :
    sequence [run isBlank, one isSign, run isBlank, a] (spaced ++ (last ++ rest)) =
      some (spaced ++ last, rest) := by
  obtain ⟨before, after, hbefore, hafter, rfl⟩ := hspaced
  have hsplit : (before ++ c :: after) ++ (last ++ rest) =
      before ++ c :: (after ++ (last ++ rest)) := by simp
  have hrunBefore : run isBlank (before ++ c :: (after ++ (last ++ rest))) =
      some (before, c :: (after ++ (last ++ rest))) :=
    run_eq_some.mpr ⟨rfl, hbefore, .cons hblank _⟩
  have hone : one isSign (c :: (after ++ (last ++ rest))) = some ([c], after ++ (last ++ rest)) :=
    one_eq_some.mpr ⟨c, hc, rfl, rfl⟩
  have hrunAfter : run isBlank (after ++ (last ++ rest)) = some (after, last ++ rest) :=
    run_eq_some.mpr ⟨rfl, hafter, hlast⟩
  rw [hsplit]
  simp [Scanner.sequence, hrunBefore, hone, hrunAfter, ha]

/-! ### Only written forms are read -/

theorem exists_of_isKeepSign {c : Char} (h : isKeepSign c = true) :
    ∃ sign : KeepSign, lowerCase c = [sign.symbol] := by
  simp only [isKeepSign, Bool.or_eq_true, decide_eq_true_eq] at h
  obtain (rfl | rfl) | rfl := h
  · exact ⟨.bottom, by decide +kernel⟩
  · exact ⟨.bottom, by decide +kernel⟩
  · exact ⟨.top, by decide +kernel⟩

theorem exists_of_isOpSign {c : Char} (h : isOpSign c = true) : ∃ op : Op, c = op.symbol := by
  simp only [isOpSign, Bool.or_eq_true, decide_eq_true_eq] at h
  obtain ((rfl | rfl) | rfl) | rfl := h
  · exact ⟨.sub, rfl⟩
  · exact ⟨.add, rfl⟩
  · exact ⟨.mul, rfl⟩
  · exact ⟨.div, rfl⟩

theorem exists_of_run1 (h : run1 isDecimalDigit s = some (taken, rest)) : IsDecimalRun taken := by
  obtain ⟨hne, -, hdigits, -⟩ := run1_eq_some.mp h
  exact ⟨hne, hdigits⟩

/-- What is taken for a group of dice writes one. -/
theorem exists_of_dice (h : dice s = some (taken, rest)) :
    ∃ w : DiceForm, w.Each IsDecimalRun ∧ w.WrittenAs taken := by
  obtain ⟨count, s₁, _, hcount, h₁, rfl⟩ := sequence_cons_eq_some.mp h
  obtain ⟨_, s₂, _, hletter, h₂, rfl⟩ := sequence_cons_eq_some.mp h₁
  obtain ⟨sides, s₃, _, hsides, h₃, rfl⟩ := sequence_cons_eq_some.mp h₂
  obtain ⟨keep, s₄, _, hkeep, h₄, rfl⟩ := sequence_cons_eq_some.mp h₃
  obtain ⟨rfl, rfl⟩ := sequence_nil_eq_some.mp h₄
  obtain ⟨letter, hdie, rfl, -⟩ := one_eq_some.mp hletter
  obtain ⟨-, hcount, -⟩ := run_eq_some.mp hcount
  have hcountForm : ∃ count? : Option (List Char), (∀ digits ∈ count?, IsDecimalRun digits) ∧
      count = count?.getD [] := by
    by_cases hnil : count = []
    · exact ⟨none, by simp, hnil⟩
    · exact ⟨some count, by simpa using ⟨hnil, hcount⟩, rfl⟩
  have hkeepForm : ∃ keep? : Option (KeepSign × List Char), (∀ p ∈ keep?, IsDecimalRun p.2) ∧
      KeepWrittenAs keep? keep := by
    rcases optional_eq_some hkeep with hkeep | ⟨-, rfl, -⟩
    · obtain ⟨c, spaced, kept, _, hc, hspaced, -, hkept, rfl⟩ := spaced_eq_some hkeep
      obtain ⟨sign, hsign⟩ := exists_of_isKeepSign hc
      exact ⟨some (sign, kept), by simpa using exists_of_run1 hkept, .some hc hsign hspaced⟩
    · exact ⟨none, by simp, .none⟩
  obtain ⟨count?, hcountRun, rfl⟩ := hcountForm
  obtain ⟨keep?, hkeepRun, hkeepWritten⟩ := hkeepForm
  refine ⟨⟨count?, sides, keep?⟩,
    DiceForm.each_iff.mpr ⟨hcountRun, exists_of_run1 hsides, hkeepRun⟩,
    letter, keep, hdie, hkeepWritten, by simp⟩

theorem exists_of_links : ∀ {pieces : List (List Char)},
    (∀ piece ∈ pieces, ∃ s rest, link s = some (piece, rest)) →
    ∃ links : List (Op × TermForm), (∀ l ∈ links, l.2.Each fun _ => IsDecimalRun) ∧
      LinksWrittenAs links pieces.flatten
  | [], _ => ⟨[], by simp, .nil⟩
  | piece :: more, h => by
    obtain ⟨⟨s, rest, hpiece⟩, hmore⟩ := List.forall_mem_cons.mp h
    obtain ⟨links, hruns, hwritten⟩ := exists_of_links hmore
    obtain ⟨c, spaced, t, _, hc, hspaced, -, ht, rfl⟩ := spaced_eq_some hpiece
    obtain ⟨op, rfl⟩ := exists_of_isOpSign hc
    have hterm : ∃ w : TermForm, w.Each (fun _ => IsDecimalRun) ∧ w.WrittenAs t := by
      rcases either_eq_some ht with hdice | hnumber
      · obtain ⟨w, hw, hwritten⟩ := exists_of_dice hdice
        exact ⟨.dice w, hw, hwritten⟩
      · exact ⟨.number t, exists_of_run1 hnumber, rfl⟩
    obtain ⟨w, hw, ht⟩ := hterm
    refine ⟨(op, w) :: links, List.forall_mem_cons.mpr ⟨hw, hruns⟩, ?_⟩
    rw [List.flatten_cons, List.append_assoc]
    exact .cons hspaced ht hwritten

/-- The notation that a header starts with writes a form that starts with a group of dice. -/
theorem exists_of_formula (h : formula s = some (taken, rest)) :
    ∃ (d : DiceForm) (links : List (Op × TermForm)),
      (ExprForm.mk (.dice d) links).Each (fun _ => IsDecimalRun) ∧
      (ExprForm.mk (.dice d) links).WrittenAs taken := by
  rw [formula_eq] at h
  obtain ⟨first, s₁, _, hfirst, h₁, rfl⟩ := sequence_cons_eq_some.mp h
  obtain ⟨last, s₂, _, hlast, h₂, rfl⟩ := sequence_cons_eq_some.mp h₁
  obtain ⟨rfl, rfl⟩ := sequence_nil_eq_some.mp h₂
  obtain ⟨d, hd, hwritten⟩ := exists_of_dice hfirst
  obtain ⟨rfl, -⟩ := Prod.mk.inj (Option.some.inj hlast)
  obtain ⟨links, hlinks, hlinksWritten⟩ := exists_of_links (exists_of_mem_many s₁)
  refine ⟨d, links, List.forall_mem_cons.mpr ⟨hd, fun t ht => ?_⟩, first, _, hwritten,
    hlinksWritten, by rw [List.append_nil]⟩
  obtain ⟨l, hl, rfl⟩ := List.mem_map.mp ht
  exact hlinks l hl

theorem exists_of_header? {line : List Char} {parts : Header} (h : header? line = some parts) :
    ∃ (d : DiceForm) (links : List (Op × TermForm)),
      (ExprForm.mk (.dice d) links).Each (fun _ => IsDecimalRun) ∧
      (ExprForm.mk (.dice d) links).WrittenAs parts.formula := by
  obtain ⟨⟨notated, rest⟩, hformula, h⟩ := Option.bind_eq_some_iff.mp h
  simp only at h
  split at h
  · cases h
  · cases h
    exact exists_of_formula hformula

/-! ### All written forms are read -/

/-- What may come after a term in the notation of a header without being read as part of it. A keep
mode is only read after a group of dice that has none. -/
structure EndsTerm (w : TermForm) (s : List Char) : Prop where
  noDigit : Stops isDecimalDigit s
  noDie : Stops isDieLetter s
  noKeep : ∀ d, w = .dice d → d.keep? = none → keepMark s = none

theorem run1_append {digits : List Char} (h : IsDecimalRun digits)
    (hrest : Stops isDecimalDigit rest) :
    run1 isDecimalDigit (digits ++ rest) = some (digits, rest) :=
  run1_eq_some.mpr ⟨h.1, rfl, h.2, hrest⟩

theorem optional_keepMark_append {k : Option (KeepSign × List Char)} {keep : List Char}
    (h : KeepWrittenAs k keep) (hk : ∀ p ∈ k, IsDecimalRun p.2)
    (hdigit : Stops isDecimalDigit rest) (hkeep : k = none → keepMark rest = none) :
    optional keepMark (keep ++ rest) = some (keep, rest) := by
  cases h with
  | none => simp [Scanner.optional, hkeep rfl]
  | @some sign kept s c hc hsign hs =>
    have hkept := hk _ rfl
    have hread : keepMark (s ++ (kept ++ rest)) = some (s ++ kept, rest) :=
      spaced_append hc (of_isKeepSign hc).1 hs
        (hkept.stops blank_apart_digit.symm rest)
        (run1_append hkept hdigit)
    simp [Scanner.optional, hread]

/-- A group of dice is read as it is written. -/
theorem dice_append {w : DiceForm} {t : List Char} (hw : w.Each IsDecimalRun) (ht : w.WrittenAs t)
    (hrest : EndsTerm (.dice w) rest) : dice (t ++ rest) = some (t, rest) := by
  obtain ⟨letter, keep, hdie, hkeep, rfl⟩ := ht
  obtain ⟨-, hsides, hk⟩ := DiceForm.each_iff.mp hw
  have hcountDigits := hw.forall_mem_count fun _ hrun => hrun.2
  have hrunCount : run isDecimalDigit (w.count?.getD [] ++ letter :: (w.sides ++ (keep ++ rest))) =
      some (w.count?.getD [], letter :: (w.sides ++ (keep ++ rest))) :=
    run_eq_some.mpr ⟨rfl, hcountDigits, .cons (of_isDieLetter hdie).2.2.1 _⟩
  have hone : one isDieLetter (letter :: (w.sides ++ (keep ++ rest))) =
      some ([letter], w.sides ++ (keep ++ rest)) := one_eq_some.mpr ⟨letter, hdie, rfl, rfl⟩
  have hrunSides := run1_append hsides (hkeep.stops hrest.noDigit)
  have hrunKeep := optional_keepMark_append hkeep hk hrest.noDigit (hrest.noKeep w rfl)
  have hsplit : w.count?.getD [] ++ letter :: (w.sides ++ keep) ++ rest =
      w.count?.getD [] ++ letter :: (w.sides ++ (keep ++ rest)) := by simp
  rw [hsplit, dice_eq]
  simp [Scanner.sequence, hrunCount, hone, hrunSides, hrunKeep]

/-- A number is not read as a group of dice. -/
theorem dice_append_eq_none {digits : List Char} (h : IsDecimalRun digits)
    (hrest : EndsTerm (.number digits) rest) : dice (digits ++ rest) = none := by
  have hrun : run isDecimalDigit (digits ++ rest) = some (digits, rest) :=
    run_eq_some.mpr ⟨rfl, h.2, hrest.noDigit⟩
  rw [dice_eq]
  simp [Scanner.sequence, hrun, one_eq_none hrest.noDie]

theorem term_append {w : TermForm} {t : List Char} (hw : w.Each fun _ => IsDecimalRun)
    (ht : w.WrittenAs t) (hrest : EndsTerm w rest) :
    either dice (run1 isDecimalDigit) (t ++ rest) = some (t, rest) := by
  cases w with
  | number digits =>
    obtain rfl : t = digits := ht
    have hrun : IsDecimalRun t := hw
    simp [either, dice_append_eq_none hrun hrest, run1_append hrun hrest.noDigit]
  | dice w => simp [either, dice_append hw ht hrest]

/-- An operator ends the term before it. -/
theorem endsTerm_of_spaced (w : TermForm) {op : Op} {s : List Char} (hs : Spaced op.symbol s)
    (tail : List Char) : EndsTerm w (s ++ tail) := by
  obtain ⟨hblank, -, hdigit, hdie, hkeep⟩ := of_isOpSign (isOpSign_symbol op)
  refine ⟨hs.stops blank_apart_digit hdigit _,
    hs.stops dieLetter_apart_blank.symm hdie _, fun _ _ _ => ?_⟩
  obtain ⟨before, after, hbefore, -, rfl⟩ := hs
  rw [Option.eq_none_iff_forall_ne_some]
  rintro ⟨taken, rest⟩ hread
  rw [List.append_assoc, List.cons_append] at hread
  obtain ⟨c, _, _, _, hc, -, heq, -⟩ := exists_of_spaced_append keepSign_apart_blank
    hbefore (.cons hblank _) hread
  rw [(List.cons.inj heq).1, hc] at hkeep
  cases hkeep

/-- The last term of a term and those that are linked to it. -/
def lastTerm (w : TermForm) : List (Op × TermForm) → TermForm
  | [] => w
  | (_, w') :: more => lastTerm w' more

theorem endsTerm_links {w : TermForm} {links : List (Op × TermForm)} {t : List Char}
    (h : LinksWrittenAs links t) (hrest : EndsTerm (lastTerm w links) rest) :
    EndsTerm w (t ++ rest) := by
  cases h with
  | nil => exact hrest
  | cons hs ht hu =>
    rw [List.append_assoc]
    exact endsTerm_of_spaced w hs _

theorem many_link_append {w : TermForm} {links : List (Op × TermForm)} {t : List Char}
    (h : LinksWrittenAs links t) (hlinks : ∀ l ∈ links, l.2.Each fun _ => IsDecimalRun)
    (hrest : EndsTerm (lastTerm w links) rest) (hnone : link rest = none) :
    (many link (t ++ rest)).1.flatten = t ∧ (many link (t ++ rest)).2 = rest := by
  induction h generalizing w with
  | nil => simp [many_of_none hnone]
  | @cons op w' more s t u hs ht hu ih =>
    obtain ⟨hw, hmore⟩ := List.forall_mem_cons.mp hlinks
    obtain ⟨hpieces, hlast⟩ := ih hmore hrest
    have hop := isOpSign_symbol op
    have hstart : Stops isBlank (t ++ (u ++ rest)) :=
      ht.stops blank_apart_digit.symm dieLetter_apart_blank hw _
    have hread : link (s ++ (t ++ (u ++ rest))) = some (s ++ t, u ++ rest) :=
      spaced_append hop (of_isOpSign hop).1 hs hstart (term_append hw ht (endsTerm_links hu hrest))
    have hshorter : (u ++ rest).length < (s ++ (t ++ (u ++ rest))).length := by
      obtain ⟨before, after, -, -, rfl⟩ := hs
      simp
      omega
    rw [List.append_assoc, List.append_assoc, many_of_some hread hshorter]
    exact ⟨by simp [hpieces], hlast⟩

/-- The notation in front of a header is read as it is written. -/
theorem formula_append {d : DiceForm} {links : List (Op × TermForm)} {t : List Char}
    (hw : (ExprForm.mk (.dice d) links).Each fun _ => IsDecimalRun)
    (ht : (ExprForm.mk (.dice d) links).WrittenAs t)
    (hrest : EndsTerm (lastTerm (.dice d) links) rest) (hnone : link rest = none) :
    formula (t ++ rest) = some (t, rest) := by
  obtain ⟨first, linked, hfirst, hlinked, rfl⟩ := ht
  obtain ⟨hd, hlinks⟩ := List.forall_mem_cons.mp hw
  have hdice : dice (first ++ (linked ++ rest)) = some (first, linked ++ rest) :=
    dice_append hd hfirst (endsTerm_links hlinked hrest)
  obtain ⟨hpieces, hlast⟩ := many_link_append hlinked
    (fun l hl => hlinks l.2 (List.mem_map_of_mem hl)) hrest hnone
  rw [List.append_assoc, formula_eq]
  simp [Scanner.sequence, repeated, hdice, hpieces, hlast]

/-! ### No keep mode is left behind -/

/-- What was taken is not followed by a keep mode, unless its last number is none of sides: such a
number comes after a sign or a blank. -/
def LeavesNoKeep (taken rest : List Char) : Prop := keepMark rest = none ∨
  ∃ front c digits, isDieLetter c = false ∧ isDecimalDigit c = false ∧
    (∀ d ∈ digits, isDecimalDigit d = true) ∧ taken = front ++ c :: digits

theorem LeavesNoKeep.append_left (h : LeavesNoKeep taken rest) (before : List Char) :
    LeavesNoKeep (before ++ taken) rest := by
  rcases h with h | ⟨front, c, digits, hdie, hdigit, hdigits, rfl⟩
  · exact .inl h
  · exact .inr ⟨before ++ front, c, digits, hdie, hdigit, hdigits, by rw [List.append_assoc]⟩

/-- A number after a sign between blanks is none of sides. -/
theorem leavesNoKeep_of_spaced {c : Char} {spaced digits : List Char}
    (hc : isDieLetter c = false ∧ isDecimalDigit c = false) (hspaced : Spaced c spaced)
    (hdigits : ∀ d ∈ digits, isDecimalDigit d = true) : LeavesNoKeep (spaced ++ digits) rest := by
  obtain ⟨before, after, -, hafter, rfl⟩ := hspaced
  rcases List.eq_nil_or_concat after with rfl | ⟨more, blank, rfl⟩
  · exact .inr ⟨before, c, digits, hc.1, hc.2, hdigits, by simp⟩
  · have hblank := hafter blank (by simp)
    exact .inr ⟨before ++ c :: more, blank, digits, dieLetter_apart_blank.symm blank hblank,
      blank_apart_digit blank hblank, hdigits, by simp⟩

theorem leavesNoKeep_of_dice (h : dice s = some (taken, rest)) : LeavesNoKeep taken rest := by
  obtain ⟨count, s₁, _, -, h₁, rfl⟩ := sequence_cons_eq_some.mp h
  obtain ⟨letter, s₂, _, -, h₂, rfl⟩ := sequence_cons_eq_some.mp h₁
  obtain ⟨sides, s₃, _, -, h₃, rfl⟩ := sequence_cons_eq_some.mp h₂
  obtain ⟨keep, s₄, _, hkeep, h₄, rfl⟩ := sequence_cons_eq_some.mp h₃
  obtain ⟨rfl, rfl⟩ := sequence_nil_eq_some.mp h₄
  refine .append_left (.append_left (.append_left ?_ _) _) _
  rw [List.append_nil]
  rcases optional_eq_some hkeep with hkeep | ⟨hnone, -, rfl⟩
  · obtain ⟨c, spaced, kept, _, hc, hspaced, -, hkept, rfl⟩ := spaced_eq_some hkeep
    exact leavesNoKeep_of_spaced ⟨keepSign_apart_dieLetter c hc, (of_isKeepSign hc).2.1⟩ hspaced
      (exists_of_run1 hkept).2
  · exact .inl hnone

theorem leavesNoKeep_of_link (h : link s = some (taken, rest)) : LeavesNoKeep taken rest := by
  obtain ⟨c, spaced, t, _, hc, hspaced, -, ht, rfl⟩ := spaced_eq_some h
  obtain ⟨-, -, hdigit, hdie, -⟩ := of_isOpSign hc
  rcases either_eq_some ht with hdice | hnumber
  · exact (leavesNoKeep_of_dice hdice).append_left spaced
  · exact leavesNoKeep_of_spaced ⟨hdie, hdigit⟩ hspaced (exists_of_run1 hnumber).2

theorem leavesNoKeep_of_many (s : List Char) : many link s = ([], s) ∨
    LeavesNoKeep (many link s).1.flatten (many link s).2 := by
  fun_induction many link s with
  | case1 s hnone => exact .inl rfl
  | case2 s piece rest hsome hshorter pieces last hmany ih =>
    rw [hmany] at ih
    rcases ih with hnil | hlast
    · obtain ⟨rfl, rfl⟩ := Prod.mk.inj hnil
      exact .inr (by simpa using leavesNoKeep_of_link hsome)
    · exact .inr (hlast.append_left piece)
  | case3 s piece rest hsome hlonger => exact .inl rfl

/-- The notation of a header takes a keep mode wherever there may be one. -/
theorem leavesNoKeep_of_formula (h : formula s = some (taken, rest)) : LeavesNoKeep taken rest := by
  rw [formula_eq] at h
  obtain ⟨first, s₁, _, hfirst, h₁, rfl⟩ := sequence_cons_eq_some.mp h
  obtain ⟨last, s₂, _, hlast, h₂, rfl⟩ := sequence_cons_eq_some.mp h₁
  obtain ⟨rfl, rfl⟩ := sequence_nil_eq_some.mp h₂
  obtain ⟨rfl, rfl⟩ := Prod.mk.inj (Option.some.inj hlast)
  rw [List.append_nil]
  rcases leavesNoKeep_of_many s₁ with hnil | hmany
  · rw [hnil, List.flatten_nil, List.append_nil]
    exact leavesNoKeep_of_dice hfirst
  · exact hmany.append_left first

end Line

end DiceTables
