import DiceTables.Proofs.DigitRuns
import DiceTables.Proofs.HeaderGrammar

/-!
What reading makes of the notation of a header. A header allows for more than notation does in one
way only, the spelling of numbers: digits of another script, needless zeros in front, and numbers
that do not fit their word. The main statement is that notation that a header starts with is refused
as malformed just for a run of digits that is not fit to be read, for its alphabet just for a digit of
another script, and otherwise only for a limit.
-/

namespace DiceTables

open Text Scanner

namespace Notation

/-! ### The alphabet of written forms -/

/-- A decimal digit that is none of the ten from `0` to `9`. -/
def IsForeignDigit (c : Char) : Prop := isDecimalDigit c = true ∧ c.isDigit = false

/-- A written form has no parentheses, and its only characters outside the alphabet are digits of
another script. -/
theorem alphabet_of_writtenAs {w : ExprForm} {t : List Char} (ht : w.WrittenAs t)
    (hw : w.Each fun _ => IsDecimalRun) :
    t.any isParenthesis = false ∧ (strangers t = [] ↔ ∀ c ∈ t, ¬ IsForeignDigit c) := by
  have hall : ∀ c ∈ t, (isBlank c = true ∨ c ∈ alphabet) ∨ isDecimalDigit c = true :=
    (ht.forall_mem_iff (fun _ hc => .inl (.inl hc)) fun _ hc => .inl (.inr hc)).mpr
      (hw.mono fun _ _ hrun c hc => .inr (hrun.2 c hc))
  have hparen : ∀ c, isParenthesis c = true →
      ¬ ((isBlank c = true ∨ c ∈ alphabet) ∨ isDecimalDigit c = true) := by
    intro c hc
    simp only [isParenthesis, Bool.or_eq_true, decide_eq_true_eq] at hc
    obtain rfl | rfl := hc <;> decide +kernel
  refine ⟨List.any_eq_false.mpr fun c hc hp => hparen c hp (hall c hc), ?_⟩
  rw [strangers_eq_nil_iff]
  refine forall₂_congr fun c hc => ⟨?_, fun hnative => ?_⟩
  · rintro (hblank | hmem) ⟨hdigit, hforeign⟩
    · rw [blank_apart_digit c hblank] at hdigit
      cases hdigit
    · rw [isDigit_of_mem_alphabet hmem hdigit] at hforeign
      cases hforeign
  · rcases hall c hc with hnotational | hdigit
    · exact hnotational
    · have hascii : c.isDigit = true := by
        by_contra hforeign
        exact hnative ⟨hdigit, Bool.of_not_eq_true hforeign⟩
      exact .inr (of_mem_plain (mem_plain_of_isDigit hascii)).2.2.1

/-- Without digits of another script all numbers of a written form are runs of `0` to `9`. -/
theorem isRun_of_writtenAs {w : ExprForm} {t : List Char} (ht : w.WrittenAs t)
    (hw : w.Each fun _ => IsDecimalRun) (hnative : ∀ c ∈ t, ¬ IsForeignDigit c) :
    w.Each fun _ => IsRun := by
  have hdigits : w.Each fun _ digits => ∀ c ∈ digits, ¬ IsForeignDigit c := by
    refine (ht.forall_mem_iff ?_ ?_).mp hnative
    · rintro c hc ⟨hdigit, -⟩
      rw [blank_apart_digit c hc] at hdigit
      cases hdigit
    · rintro c hc ⟨hdigit, hforeign⟩
      rw [isDigit_of_mem_alphabet hc hdigit] at hforeign
      cases hforeign
  refine (hw.and hdigits).mono fun _ digits h => ⟨h.1.1, fun c hc => ?_⟩
  by_contra hforeign
  exact h.2 c hc ⟨h.1.2 c hc, Bool.of_not_eq_true hforeign⟩

/-- A form whose numbers are runs of digits is read just if it is of the grammar. -/
theorem exprDraft?_eq_none_iff {w : ExprForm} (hw : w.Each fun _ => IsRun) :
    exprDraft? w.text = none ↔ ¬ w.Each Proper := by
  constructor
  · intro hnone hproper
    rw [exprDraft?_text hproper] at hnone
    cases hnone
  · intro hproper
    rw [Option.eq_none_iff_forall_ne_some]
    intro d hd
    obtain ⟨w', hw', -, htext⟩ := exists_of_exprDraft? hd
    rw [ExprForm.text_inj (hw'.mono fun _ _ => Proper.isRun) hw htext] at hw'
    exact hproper hw'

/-! ### Reading the notation of a header -/

/-- A digit of another script is what is complained of first. -/
theorem ofNotation_of_foreign {w : ExprForm} {t : List Char} (ht : w.WrittenAs t)
    (hw : w.Each fun _ => IsDecimalRun) (hforeign : ¬ ∀ c ∈ t, ¬ IsForeignDigit c)
    (limits : Limits) :
    Expr.ofNotation t limits = .error (.illegalCharacters (String.ofList (strangers t))) := by
  obtain ⟨hparen, hstrangers⟩ := alphabet_of_writtenAs ht hw
  exact Expr.ofNotation_of_strangers hparen fun hnone => hforeign (hstrangers.mp hnone)

/-- Without digits of another script it is the form that decides, and then the limits. -/
theorem ofNotation_of_native {w : ExprForm} {t : List Char} (ht : w.WrittenAs t)
    (hw : w.Each fun _ => IsDecimalRun) (hnative : ∀ c ∈ t, ¬ IsForeignDigit c) (limits : Limits) :
    Expr.ofNotation t limits =
      (exprDraft? (compact t)).elim (.error .malformed) (·.build limits) := by
  obtain ⟨hparen, hstrangers⟩ := alphabet_of_writtenAs ht hw
  exact Expr.ofNotation_of_legal hparen (hstrangers.mpr hnative)

theorem exprDraft?_compact_eq_none_iff {d : DiceForm} {links : List (Op × TermForm)} {t : List Char}
    (ht : (ExprForm.mk (.dice d) links).WrittenAs t)
    (hw : (ExprForm.mk (.dice d) links).Each fun _ => IsDecimalRun)
    (hnative : ∀ c ∈ t, ¬ IsForeignDigit c) :
    exprDraft? (compact t) = none ↔ HasUnfitRun t := by
  have hrun := isRun_of_writtenAs ht hw hnative
  rw [ht.compact_eq hrun, exprDraft?_eq_none_iff hrun, hasUnfitRun_iff ht hrun]

end Notation

open Notation

/-- What reading makes of the notation that a header starts with, under any limits. It never complains
of parentheses; it complains of characters just if there is a digit of another script; if there is
none, the notation is malformed just if one of its runs of digits has a needless zero or does not fit;
and in all other cases there is an expression, or a limit that it breaks. -/
theorem header_notation_readable {line : List Char} {parts : Line.Header}
    (h : Line.header? line = some parts) (limits : Limits) :
    let result := Expr.ofNotation parts.formula limits
    let native := ∀ c ∈ parts.formula, ¬ IsForeignDigit c
    result ≠ .error .grouping ∧
    ((∃ found, result = .error (.illegalCharacters found)) ↔ ¬ native) ∧
    (result = .error .malformed ↔ native ∧ HasUnfitRun parts.formula) ∧
    (native → ¬ HasUnfitRun parts.formula →
      (∃ e, result = .ok e) ∨ (∃ count max, result = .error (.tooManyTerms count max)) ∨
        ∃ rule, result = .error (.dice rule)) := by
  intro result native
  obtain ⟨w, links, hw, ht⟩ := Line.exists_of_header? h
  by_cases hnative : native
  · have hresult : result = _ := ofNotation_of_native ht hw hnative limits
    have hread := exprDraft?_compact_eq_none_iff ht hw hnative
    cases hdraft : exprDraft? (compact parts.formula) with
    | none =>
      rw [hdraft] at hresult
      simp [hresult, hnative, hread.mp hdraft]
    | some d =>
      have hfit : ¬ HasUnfitRun parts.formula := fun hunfit => by
        rw [hread.mpr hunfit] at hdraft
        cases hdraft
      rw [hdraft, Option.elim_some] at hresult
      cases hbuild : d.build limits with
      | ok e => simp [hresult, hbuild, hnative, hfit]
      | error err =>
        rcases ExprDraft.exists_of_build_eq_error hbuild with ⟨count, max, rfl⟩ | ⟨rule, rfl⟩ <;>
          simp [hresult, hbuild, hnative, hfit]
  · have hresult : result = _ := ofNotation_of_foreign ht hw hnative limits
    simp [hresult, hnative]

/-- A header with blanks, a capital and a needless zero is a header all the same, but its notation is
malformed. -/
theorem header_with_needless_zero :
    ∃ parts, Line.header? "**2D6 ^ 1 - 05 v 3 Loot**".toList = some parts ∧
      parts.formula = "2D6 ^ 1 - 05".toList ∧
      Expr.ofNotation parts.formula {} = .error .malformed := by
  have hheader : (Line.header? "**2D6 ^ 1 - 05 v 3 Loot**".toList).map (·.formula) =
      some "2D6 ^ 1 - 05".toList := by decide +kernel
  obtain ⟨parts, hparts, hformula⟩ := Option.map_eq_some_iff.mp hheader
  have hnative : ∀ c ∈ "2D6 ^ 1 - 05".toList, ¬ IsForeignDigit c := by
    have hall : ("2D6 ^ 1 - 05".toList.all fun c => !isDecimalDigit c || c.isDigit) = true := by
      decide +kernel
    rintro c hc ⟨hdigit, hforeign⟩
    simpa [hdigit, hforeign] using List.all_eq_true.mp hall c hc
  have hblank : ∀ c ∈ "2D6 ^ 1 - ".toList.getLast?, isDecimalDigit c = false := by
    intro c hc
    obtain rfl : ' ' = c := Option.some.inj hc
    decide +kernel
  have hzero : IsDigitRun "2D6 ^ 1 - 05".toList "2D6 ^ 1 - ".toList ['0', '5'] [] :=
    ⟨by decide, ⟨by decide, List.all_eq_true.mp (by decide +kernel)⟩, hblank, .nil⟩
  have hunfit : HasUnfitRun "2D6 ^ 1 - 05".toList :=
    ⟨_, _, _, hzero, .inl ⟨['5'], by decide, rfl⟩⟩
  obtain ⟨-, -, hmalformed, -⟩ := header_notation_readable hparts {}
  rw [hformula] at hmalformed
  exact ⟨parts, hparts, hformula, by rw [hformula, hmalformed]; exact ⟨hnative, hunfit⟩⟩

end DiceTables
