import DiceTables.Proofs.Characters
import DiceTables.Proofs.HeaderForm

/-!
Runs of digits within a text. `HasUnfitRun` says of a text, without reading it as notation, that one
of its runs of digits has a needless zero or does not fit its word. A text that writes a form has such
a run just if the form is not of the grammar.
-/

namespace DiceTables

open Text Scanner

namespace Notation

/-! ### Runs of digits within a text -/

/-- A run of digits with what stands before and after it, neither of which goes on with a digit. -/
structure IsDigitRun (s before run after : List Char) : Prop where
  eq : s = before ++ (run ++ after)
  isRun : IsDecimalRun run
  before_stops : ∀ c ∈ before.getLast?, isDecimalDigit c = false
  after_stops : Stops isDecimalDigit after

/-- Whether a run of digits is a number of dice, of sides or of kept dice: the letter of a die or the
sign of a keep mode is the last thing before it that is no blank, or the letter of a die follows. -/
def CountsDice (before after : List Char) : Prop :=
  (∃ c ∈ (trimEndWhile isBlank before).getLast?,
    Line.isDieLetter c = true ∨ Line.isKeepSign c = true) ∨
  ∃ c ∈ after.head?, Line.isDieLetter c = true

/-- A zero in front of other digits. -/
def HasNeedlessZero (run : List Char) : Prop := ∃ more, more ≠ [] ∧ run = '0' :: more

/-- A run of digits that is not written as a number is, or does not fit its word. -/
def IsUnfit (before run after : List Char) : Prop :=
  HasNeedlessZero run ∨ CountsDice before after ∧ 2 ^ 64 ≤ valueOf run ∨
    ¬ CountsDice before after ∧ 2 ^ 63 ≤ valueOf run

/-- A text one of whose runs of digits is not fit to be read. -/
def HasUnfitRun (s : List Char) : Prop :=
  ∃ before run after, IsDigitRun s before run after ∧ IsUnfit before run after

/-- The first run of a text after a part without digits, and the runs after it. -/
theorem isDigitRun_append_iff {lead first rest before run after : List Char}
    (hlead : ∀ c ∈ lead, isDecimalDigit c = false) (hfirst : IsDecimalRun first)
    (hrest : Stops isDecimalDigit rest) :
    IsDigitRun (lead ++ (first ++ rest)) before run after ↔
      (before = lead ∧ run = first ∧ after = rest) ∨
      ∃ between, before = lead ++ (first ++ between) ∧ IsDigitRun rest between run after := by
  constructor
  · rintro ⟨heq, hrun, hbefore, hafter⟩
    have hmiddle : ∃ between, before = lead ++ between ∧
        first ++ rest = between ++ (run ++ after) := by
      rcases List.append_eq_append_iff.mp heq with ⟨between, rfl, h⟩ | ⟨between, rfl, h⟩
      · exact ⟨between, rfl, h⟩
      · -- the run cannot start within the part that has no digits
        cases between with
        | nil => exact ⟨[], by simp, by simpa using h.symm⟩
        | cons c between =>
          obtain ⟨d, digits, rfl⟩ := List.exists_cons_of_ne_nil hrun.1
          have hcd : d = c := (List.cons.inj h).1
          have hd := hrun.2 d List.mem_cons_self
          rw [hcd, hlead c (by simp)] at hd
          cases hd
    obtain ⟨between, rfl, hsplit⟩ := hmiddle
    by_cases hnil : between = []
    · subst hnil
      obtain ⟨rfl, rfl⟩ := run_append_inj hfirst.2 hrun.2 hrest hafter hsplit
      exact .inl ⟨by simp, rfl, rfl⟩
    · right
      have hlast : ∀ c ∈ between.getLast?, isDecimalDigit c = false := by
        rwa [List.getLast?_append_of_ne_nil _ hnil] at hbefore
      rcases List.append_eq_append_iff.mp hsplit with ⟨more, rfl, h⟩ | ⟨more, rfl, h⟩
      · refine ⟨more, rfl, h, hrun, fun c hc => ?_, hafter⟩
        cases more with
        | nil => cases hc
        | cons d more =>
          rw [List.getLast?_append_of_ne_nil _ (by simp)] at hlast
          exact hlast c hc
      · -- nor can the part before it end within the first run
        have hmem := List.getLast_mem hnil
        have hdigit := hfirst.2 _ (List.mem_append_left more hmem)
        rw [hlast _ (List.getLast?_eq_some_getLast hnil)] at hdigit
        cases hdigit
  · rintro (⟨rfl, rfl, rfl⟩ | ⟨between, rfl, heq, hrun, hbefore, hafter⟩)
    · exact ⟨rfl, hfirst, fun c hc => hlead c (List.mem_of_getLast? hc), hrest⟩
    · refine ⟨by rw [heq]; simp, hrun, fun c hc => ?_, hafter⟩
      cases between with
      | nil =>
        obtain ⟨d, digits, rfl⟩ := List.exists_cons_of_ne_nil hrun.1
        have hd := hrun.2 d List.mem_cons_self
        rw [hrest d (by rw [heq]; rfl)] at hd
        cases hd
      | cons d between =>
        rw [List.getLast?_append_of_ne_nil _ (by simp),
          List.getLast?_append_of_ne_nil _ (by simp)] at hc
        exact hbefore c hc

/-- Whether a text that stands after `pre` has a run that is not fit to be read there. -/
def HasUnfitRunAfter (pre s : List Char) : Prop :=
  ∃ before run after, IsDigitRun s before run after ∧ IsUnfit (pre ++ before) run after

theorem not_hasUnfitRunAfter_nil (pre : List Char) : ¬ HasUnfitRunAfter pre [] := by
  rintro ⟨before, run, after, ⟨heq, hrun, -, -⟩, -⟩
  simp only [List.nil_eq, List.append_eq_nil_iff] at heq
  exact hrun.1 heq.2.1

theorem hasUnfitRunAfter_append_iff {pre lead first rest : List Char}
    (hlead : ∀ c ∈ lead, isDecimalDigit c = false) (hfirst : IsDecimalRun first)
    (hrest : Stops isDecimalDigit rest) :
    HasUnfitRunAfter pre (lead ++ (first ++ rest)) ↔
      IsUnfit (pre ++ lead) first rest ∨ HasUnfitRunAfter (pre ++ (lead ++ first)) rest := by
  simp only [HasUnfitRunAfter, isDigitRun_append_iff hlead hfirst hrest]
  constructor
  · rintro ⟨before, run, after, ⟨rfl, rfl, rfl⟩ | ⟨between, rfl, hrun⟩, hunfit⟩
    · exact .inl hunfit
    · exact .inr ⟨between, run, after, hrun, by simpa using hunfit⟩
  · rintro (hunfit | ⟨between, run, after, hrun, hunfit⟩)
    · exact ⟨lead, first, rest, .inl ⟨rfl, rfl, rfl⟩, hunfit⟩
    · exact ⟨_, run, after, .inr ⟨between, rfl, hrun⟩, by simpa using hunfit⟩

/-! ### Runs that are numbers of the grammar -/

theorem isNumber_iff {run : List Char} (h : IsRun run) :
    IsNumber run ↔ ¬ HasNeedlessZero run := by
  obtain ⟨c, more, rfl⟩ := List.exists_cons_of_ne_nil h.1
  obtain ⟨hc, hmore⟩ := List.forall_mem_cons.mp h.2
  constructor
  · rintro (_ | ⟨hne, -, -⟩) ⟨others, hothers, heq⟩
    · exact hothers (List.cons.inj heq).2.symm
    · exact hne (List.cons.inj heq).1
  · intro hzero
    by_cases hne : c = '0'
    · subst hne
      have hnil : more = [] := by
        by_contra hmore
        exact hzero ⟨more, hmore, rfl⟩
      rw [hnil]
      exact .zero
    · exact .digits hne hc hmore

theorem isUnfit_iff_of_dice {before run after : List Char} (hrun : IsRun run)
    (h : CountsDice before after) :
    IsUnfit before run after ↔ ¬ Proper diceNumberBound run := by
  have hbound : (2 : Nat) ^ 64 = diceNumberBound := by decide
  rw [IsUnfit, Proper, isNumber_iff hrun, hbound]
  have := Nat.not_lt (a := valueOf run) (b := diceNumberBound)
  tauto

theorem isUnfit_iff_of_term {before run after : List Char} (hrun : IsRun run)
    (h : ¬ CountsDice before after) :
    IsUnfit before run after ↔ ¬ Proper termNumberBound run := by
  have hbound : (2 : Nat) ^ 63 = termNumberBound := by decide
  rw [IsUnfit, Proper, isNumber_iff hrun, hbound]
  have := Nat.not_lt (a := valueOf run) (b := termNumberBound)
  tauto

/-! ### Written forms and their runs -/

/-- The last thing before a run, blanks aside. -/
theorem getLast?_trimEndWhile {c : Char} (pre : List Char) {spaced : List Char} (h : Spaced c spaced)
    (hc : isBlank c = false) : (trimEndWhile isBlank (pre ++ spaced)).getLast? = some c := by
  obtain ⟨before, after, -, hafter, rfl⟩ := h
  have hdrop : (pre ++ (before ++ c :: after)).reverse.dropWhile isBlank =
      c :: (pre ++ before).reverse := by
    have hreverse : (pre ++ (before ++ c :: after)).reverse =
        after.reverse ++ c :: (pre ++ before).reverse := by simp
    rw [hreverse, List.dropWhile_append_of_pos (by simpa using hafter), List.dropWhile_cons, hc]
    rfl
  rw [trimEndWhile, hdrop, List.getLast?_reverse, List.head?_cons]

theorem Spaced.noDecimalDigit {c : Char} {s : List Char} (h : Spaced c s)
    (hc : isDecimalDigit c = false) : ∀ d ∈ s, isDecimalDigit d = false := by
  obtain ⟨before, after, hbefore, hafter, rfl⟩ := h
  refine List.forall_mem_append.mpr ⟨fun d hd => blank_apart_digit d (hbefore d hd), ?_⟩
  exact List.forall_mem_cons.mpr ⟨hc, fun d hd => blank_apart_digit d (hafter d hd)⟩

theorem hasUnfitRunAfter_keep {pre s rest : List Char} {k : Option (KeepSign × List Char)}
    (h : KeepWrittenAs k s) (hk : ∀ p ∈ k, IsRun p.2) (hrest : Stops isDecimalDigit rest) :
    HasUnfitRunAfter pre (s ++ rest) ↔
      (∃ p ∈ k, ¬ Proper diceNumberBound p.2) ∨ HasUnfitRunAfter (pre ++ s) rest := by
  cases h with
  | none => simp
  | @some sign kept s c hc hsign hs =>
    obtain ⟨hblank, hdigit, -⟩ := Line.of_isKeepSign hc
    have hcounts : CountsDice (pre ++ s) rest :=
      .inl ⟨c, getLast?_trimEndWhile pre hs hblank, .inr hc⟩
    have hkept := hk _ rfl
    rw [List.append_assoc, hasUnfitRunAfter_append_iff (hs.noDecimalDigit hdigit)
      hkept.isDecimalRun hrest, isUnfit_iff_of_dice hkept hcounts]
    simp

/-- The sides of a die and what follows them in a group of dice. -/
theorem hasUnfitRunAfter_sides (pre : List Char) {lead sides keep rest : List Char} {letter : Char}
    {k : Option (KeepSign × List Char)} (hlead : ∀ c ∈ lead, isDecimalDigit c = false)
    (hletter : Line.isDieLetter letter = true) (hsides : IsRun sides) (hkeep : KeepWrittenAs k keep)
    (hk : ∀ p ∈ k, IsRun p.2) (hrest : Stops isDecimalDigit rest) :
    HasUnfitRunAfter pre (lead ++ letter :: (sides ++ (keep ++ rest))) ↔
      ¬ Proper diceNumberBound sides ∨ (∃ p ∈ k, ¬ Proper diceNumberBound p.2) ∨
        HasUnfitRunAfter (pre ++ (lead ++ letter :: (sides ++ keep))) rest := by
  obtain ⟨hblank, -, hdigit, -, -⟩ := Line.of_isDieLetter hletter
  have hcounts : CountsDice (pre ++ (lead ++ [letter])) (keep ++ rest) := by
    rw [← List.append_assoc]
    exact .inl ⟨letter, getLast?_trimEndWhile _ .single hblank, .inl hletter⟩
  have hlead' : ∀ c ∈ lead ++ [letter], isDecimalDigit c = false :=
    List.forall_mem_append.mpr ⟨hlead, by simpa using hdigit⟩
  have hsplit : lead ++ letter :: (sides ++ (keep ++ rest)) =
      (lead ++ [letter]) ++ (sides ++ (keep ++ rest)) := by simp
  rw [hsplit, hasUnfitRunAfter_append_iff hlead' hsides.isDecimalRun (hkeep.stops hrest),
    isUnfit_iff_of_dice hsides hcounts, hasUnfitRunAfter_keep hkeep hk hrest]
  simp

/-- A group of dice has a run that is not fit to be read if one of its numbers is not. -/
theorem hasUnfitRunAfter_dice (pre : List Char) {lead t rest : List Char} {w : DiceForm}
    (hlead : ∀ c ∈ lead, isDecimalDigit c = false) (hw : w.Each IsRun) (ht : w.WrittenAs t)
    (hrest : Stops isDecimalDigit rest) :
    HasUnfitRunAfter pre (lead ++ (t ++ rest)) ↔
      ¬ w.Each (Proper diceNumberBound) ∨ HasUnfitRunAfter (pre ++ (lead ++ t)) rest := by
  obtain ⟨letter, keep, hletter, hkeep, rfl⟩ := ht
  obtain ⟨hcount, hsides, hk⟩ := DiceForm.each_iff.mp hw
  rw [DiceForm.each_iff]
  cases hw : w.count? with
  | none =>
    have hsplit := hasUnfitRunAfter_sides pre hlead hletter hsides hkeep hk hrest
    simp only [Option.getD_none, List.nil_append, List.cons_append, List.append_assoc, hsplit]
    simp [or_assoc, imp_iff_not_or]
  | some count =>
    have hrun := hcount count hw
    have hcounts : CountsDice (pre ++ lead) (letter :: (w.sides ++ (keep ++ rest))) :=
      .inr ⟨letter, rfl, hletter⟩
    have hstops : Stops isDecimalDigit (letter :: (w.sides ++ (keep ++ rest))) :=
      .cons (Line.of_isDieLetter hletter).2.2.1 _
    have hsplit := hasUnfitRunAfter_sides (pre ++ (lead ++ count)) (List.forall_mem_nil _)
      hletter hsides hkeep hk hrest
    simp only [List.nil_append] at hsplit
    simp only [Option.getD_some, List.append_assoc, List.cons_append]
    rw [hasUnfitRunAfter_append_iff hlead hrun.isDecimalRun hstops, isUnfit_iff_of_dice hrun hcounts,
      hsplit]
    simp [or_assoc, imp_iff_not_or]

/-- An operator and the term after it. A number there is no number of dice, because nothing but the
operator stands before it and no letter after it. -/
theorem hasUnfitRunAfter_link {pre s t rest : List Char} {op : Op} {w : TermForm}
    (hs : Spaced op.symbol s) (hw : w.Each fun _ => IsRun) (ht : w.WrittenAs t)
    (hrest : Stops isDecimalDigit rest) (hletter : Stops Line.isDieLetter rest) :
    HasUnfitRunAfter pre (s ++ (t ++ rest)) ↔
      ¬ w.Each Proper ∨ HasUnfitRunAfter (pre ++ (s ++ t)) rest := by
  obtain ⟨hblank, -, hdigit, hdie, hkeep⟩ := Line.of_isOpSign (Line.isOpSign_symbol op)
  have hlead := hs.noDecimalDigit hdigit
  cases w with
  | number digits =>
    obtain rfl : t = digits := ht
    have hrun : IsRun t := hw
    have hcounts : ¬ CountsDice (pre ++ s) rest := by
      rintro (⟨c, hc, hsign⟩ | ⟨c, hc, hsign⟩)
      · rw [getLast?_trimEndWhile pre hs hblank] at hc
        obtain rfl := Option.some.inj hc
        simp [hdie, hkeep] at hsign
      · rw [hletter c hc] at hsign
        cases hsign
    rw [hasUnfitRunAfter_append_iff hlead hrun.isDecimalRun hrest,
      isUnfit_iff_of_term hrun hcounts]
    rfl
  | dice w => exact hasUnfitRunAfter_dice pre hlead hw ht hrest

theorem hasUnfitRunAfter_links {pre t : List Char} {links : List (Op × TermForm)}
    (h : LinksWrittenAs links t) (hlinks : ∀ l ∈ links, l.2.Each fun _ => IsRun) :
    HasUnfitRunAfter pre t ↔ ∃ l ∈ links, ¬ l.2.Each Proper := by
  induction h generalizing pre with
  | nil => simp [not_hasUnfitRunAfter_nil]
  | @cons op w more s t u hs ht hu ih =>
    obtain ⟨hw, hmore⟩ := List.forall_mem_cons.mp hlinks
    obtain ⟨hdigit, hletter⟩ := hu.stops
    rw [hasUnfitRunAfter_link hs hw ht hdigit hletter, ih hmore]
    simp

/-- A text that writes a form has a run that is not fit to be read just if the form is not of the
grammar. -/
theorem hasUnfitRun_iff {w : DiceForm} {links : List (Op × TermForm)} {t : List Char}
    (ht : (ExprForm.mk (.dice w) links).WrittenAs t)
    (hw : (ExprForm.mk (.dice w) links).Each fun _ => IsRun) :
    HasUnfitRun t ↔ ¬ (ExprForm.mk (.dice w) links).Each Proper := by
  obtain ⟨first, rest, hfirst, hrest, rfl⟩ := ht
  obtain ⟨hwRun, hlinks⟩ := List.forall_mem_cons.mp hw
  replace hlinks : ∀ l ∈ links, l.2.Each fun _ => IsRun :=
    fun l hl => hlinks l.2 (List.mem_map_of_mem hl)
  have hdice := hasUnfitRunAfter_dice [] (List.forall_mem_nil _) hwRun hfirst hrest.stops.1
  rw [hasUnfitRunAfter_links hrest hlinks] at hdice
  calc HasUnfitRun (first ++ rest)
      ↔ ¬ w.Each (Proper diceNumberBound) ∨ ∃ l ∈ links, ¬ l.2.Each Proper := hdice
    _ ↔ ¬ (ExprForm.mk (.dice w) links).Each Proper := by
      simp only [ExprForm.Each, ExprForm.terms, List.forall_mem_cons, List.forall_mem_map]
      rw [not_and_or]
      simp [TermForm.Each]

end Notation

end DiceTables
