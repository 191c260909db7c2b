import DiceTables.Proofs.Characters
import DiceTables.Proofs.Reading

/-!
Notation says everything about what it stands for. The text of an expression is read back as the very
same expression, for every expression that the limits allow, and reading gives no other expressions;
so does the text of a group of dice. The blanks around operators are dropped before anything is read,
and no other character of such a text changes.
-/

namespace DiceTables

open Notation Text

variable {limits : Limits}

/-! ### Compact texts -/

namespace Notation

/-- The characters that texts of expressions have apart from blanks. -/
def plain : List Char := "0123456789dv^+-*/".toList

/-- A plain character belongs to notation, and compacting leaves it as it is. -/
theorem of_mem_plain {c : Char} (h : c ∈ plain) :
    isBlank c = false ∧ lowerCase c = [c] ∧ c ∈ alphabet ∧ isParenthesis c = false := by
  have hall : (plain.all fun c =>
      isBlank c = false ∧ lowerCase c = [c] ∧ c ∈ alphabet ∧ isParenthesis c = false) = true := by
    decide +kernel
  exact of_decide_eq_true (List.all_eq_true.mp hall c h)

theorem mem_plain_of_isDigit {c : Char} (h : c.isDigit = true) : c ∈ plain := by
  have hdigits : ∀ n, 48 ≤ n → n ≤ 57 → Char.ofNat n ∈ plain := by
    intro n hlow hhigh
    interval_cases n <;> decide
  have hrange : 48 ≤ c.toNat ∧ c.toNat ≤ 57 := by
    simpa [Char.isDigit, UInt32.le_iff_toNat_le] using h
  rw [← Char.ofNat_toNat c]
  exact hdigits c.toNat hrange.1 hrange.2

theorem symbol_mem_plain (op : Op) : op.symbol ∈ plain := by
  cases op <;> decide

theorem compact_append (s t : List Char) : compact (s ++ t) = compact s ++ compact t := by
  rw [compact, List.filter_append, List.flatMap_append, compact, compact]

theorem compact_of_plain {s : List Char} (h : ∀ c ∈ s, c ∈ plain) : compact s = s := by
  have hkept : s.filter (!isBlank ·) = s := by
    rw [List.filter_eq_self]
    intro c hc
    rw [(of_mem_plain (h c hc)).1, Bool.not_false]
  rw [compact, hkept]
  calc s.flatMap lowerCase = s.flatMap fun c => [c] :=
        List.flatMap_congr fun c hc => (of_mem_plain (h c hc)).2.1
    _ = s := List.flatMap_singleton' s

theorem compact_flatMap {α : Type} (l : List α) (f : α → List Char) :
    compact (l.flatMap f) = l.flatMap fun a => compact (f a) := by
  rw [compact, List.filter_flatMap, List.flatMap_assoc]
  rfl

theorem compact_blank (s : List Char) : compact (' ' :: s) = compact s := rfl

theorem checkAlphabet_of_plain {s : List Char} (h : ∀ c ∈ s, c = ' ' ∨ c ∈ plain) :
    checkAlphabet s = .ok () := by
  have hparen : s.any isParenthesis = false := by
    rw [List.any_eq_false]
    intro c hc
    rcases h c hc with rfl | hplain
    · decide
    · simp [(of_mem_plain hplain).2.2.2]
  have hstrangers : strangers s = [] := by
    refine strangers_eq_nil_iff.mpr fun c hc => ?_
    rcases h c hc with rfl | hplain
    · exact .inl (by decide)
    · exact .inr (of_mem_plain hplain).2.2.1
  rw [checkAlphabet, hparen, hstrangers]
  rfl

end Notation

/-! ### Texts of expressions -/

theorem Notation.IsRun.plain {digits : List Char} (h : IsRun digits) : ∀ c ∈ digits, c ∈ plain :=
  fun c hc => mem_plain_of_isDigit (h.2 c hc)

theorem Notation.DiceForm.plain_text {w : DiceForm} (h : w.Each IsRun) : ∀ c ∈ w.text, c ∈ plain := by
  obtain ⟨hcount, hsides, hkeep⟩ := each_iff.mp h
  refine List.forall_mem_append.mpr ⟨?_, List.forall_mem_cons.mpr ⟨by decide, ?_⟩⟩
  · cases hw : w.count? with
    | none => simp
    | some count => exact (hcount count hw).plain
  · refine List.forall_mem_append.mpr ⟨hsides.plain, ?_⟩
    cases hw : w.keep? with
    | none => simp [keepText]
    | some p =>
      refine List.forall_mem_cons.mpr ⟨?_, (hkeep p hw).plain⟩
      cases p.1 <;> decide

theorem Notation.TermForm.plain_text {w : TermForm} (h : w.Each fun _ => IsRun) :
    ∀ c ∈ w.text, c ∈ plain := by
  cases w with
  | number digits => exact IsRun.plain h
  | dice d => exact DiceForm.plain_text h

theorem Term.plain_text {t : Term} (h : t.Buildable limits) : ∀ c ∈ t.text.toList, c ∈ plain := by
  rw [Term.toList_text h]
  exact TermForm.plain_text ((Term.proper_form h).mono fun _ _ => Proper.isRun)

theorem Dice.plain_text (d : Dice) : ∀ c ∈ d.text.toList, c ∈ plain := by
  rw [d.toList_text]
  exact DiceForm.plain_text fun digits hd => (d.proper_form digits hd).isRun

namespace Expr

theorem toList_text (e : Expr) : e.text.toList = e.first.text.toList ++
    e.rest.flatMap fun p => ' ' :: p.1.symbol :: ' ' :: p.2.text.toList := by
  simp only [text, String.toList_append, String.toList_join, List.flatMap_map]
  congr 1
  refine List.flatMap_congr fun p _ => ?_
  simp

theorem compact_text {e : Expr} (h : ∀ t ∈ e.terms, t.Buildable limits) :
    compact e.text.toList = e.first.text.toList ++ e.rest.flatMap linkText := by
  obtain ⟨hfirst, hrest⟩ := List.forall_mem_cons.mp h
  have hlink : ∀ p ∈ e.rest,
      compact (' ' :: p.1.symbol :: ' ' :: p.2.text.toList) = linkText p := by
    intro p hp
    have hterm := Term.plain_text (hrest p.2 (List.mem_map_of_mem hp))
    have hsymbol : ∀ c ∈ [p.1.symbol], c ∈ plain := by
      rintro c hc
      obtain rfl := List.mem_singleton.mp hc
      exact symbol_mem_plain p.1
    calc compact (' ' :: p.1.symbol :: ' ' :: p.2.text.toList)
        = compact [p.1.symbol] ++ compact p.2.text.toList := by
          rw [compact_blank, ← List.singleton_append, compact_append, compact_blank]
      _ = linkText p := by rw [compact_of_plain hsymbol, compact_of_plain hterm]; rfl
  rw [toList_text, compact_append, compact_of_plain (Term.plain_text hfirst), compact_flatMap]
  rw [List.flatMap_congr hlink]

theorem plain_text {e : Expr} (h : ∀ t ∈ e.terms, t.Buildable limits) :
    ∀ c ∈ e.text.toList, c = ' ' ∨ c ∈ plain := by
  obtain ⟨hfirst, hrest⟩ := List.forall_mem_cons.mp h
  rw [toList_text]
  refine List.forall_mem_append.mpr ⟨fun c hc => .inr (Term.plain_text hfirst c hc), fun c hc => ?_⟩
  obtain ⟨p, hp, hc⟩ := List.mem_flatMap.mp hc
  have hterm := Term.plain_text (hrest p.2 (List.mem_map_of_mem hp))
  rcases List.mem_cons.mp hc with rfl | hc
  · exact .inl rfl
  · rcases List.mem_cons.mp hc with rfl | hc
    · exact .inr (symbol_mem_plain p.1)
    · rcases List.mem_cons.mp hc with rfl | hc
      · exact .inl rfl
      · exact .inr (hterm c hc)

/-- The text of an expression that the limits allow is read back as this expression. -/
theorem Buildable.ofNotation_text {e : Expr} (h : e.Buildable limits) :
    Expr.ofNotation e.text.toList limits = .ok e := by
  refine ofNotation_eq_ok.mpr ⟨checkAlphabet_of_plain (plain_text h.terms), e.draft, ?_, h.build_draft⟩
  rw [compact_text h.terms]
  exact exprDraft?_eq h.terms

/-- Whatever is read as an expression keeps to the limits. -/
theorem buildable_of_ofNotation {s : List Char} {e : Expr} (h : Expr.ofNotation s limits = .ok e) :
    e.Buildable limits := by
  obtain ⟨-, d, hread, hbuild⟩ := ofNotation_eq_ok.mp h
  exact (ExprDraft.of_build (fits_of_exprDraft? hread) hbuild).2

end Expr

/-- The text of a group of dice that the limits allow is read back as this group. -/
theorem Dice.ofNotation_text {r : Dice.Request} {d : Dice} (h : r.build limits = .ok d) :
    Dice.ofNotation d.text.toList limits = .ok d := by
  refine ofNotation_eq_ok.mpr ⟨d.request, ?_, Request.build_request h⟩
  rw [compact_of_plain d.plain_text]
  exact diceDraft?_text d

/-- Reading undoes writing, for every expression and every group of dice that the limits allow, and
every expression that is read is one that they allow. -/
theorem notation_reads_back (limits : Limits) :
    (∀ e : Expr, e.Buildable limits → Expr.ofNotation e.text.toList limits = .ok e) ∧
    (∀ s e, Expr.ofNotation s limits = .ok e →
      e.Buildable limits ∧ Expr.ofNotation e.text.toList limits = .ok e) ∧
    ∀ (r : Dice.Request) (d : Dice), r.build limits = .ok d →
      Dice.ofNotation d.text.toList limits = .ok d := by
  refine ⟨fun e he => he.ofNotation_text, fun s e h => ?_, fun r d h => Dice.ofNotation_text h⟩
  have he := Expr.buildable_of_ofNotation h
  exact ⟨he, he.ofNotation_text⟩

/-- Notation with a needless count, blanks and a capital has a shorter text, which reads the same; so
does a group of dice of which some are dropped. -/
theorem short_notation_reads_back :
    ∃ e d, Expr.ofNotation " 1D20 + 4d6 ^3-10".toList {} = .ok e ∧ e.text = "d20 + 4d6^3 - 10" ∧
      e.Buildable {} ∧ Expr.ofNotation e.text.toList {} = .ok e ∧
      (Dice.Request.mk 10 4 (.bottom 7)).build {} = .ok d ∧ d.text = "10d4v7" ∧
      Dice.ofNotation d.text.toList {} = .ok d := by
  have htext : ((Expr.ofNotation " 1D20 + 4d6 ^3-10".toList {}).toOption.map (·.text)) =
      some "d20 + 4d6^3 - 10" := by decide +kernel
  have hdice : (((Dice.Request.mk 10 4 (.bottom 7)).build {}).toOption.map (·.text)) =
      some "10d4v7" := by decide +kernel
  obtain ⟨e, he, htext⟩ := Option.map_eq_some_iff.mp htext
  obtain ⟨d, hd, hdice⟩ := Option.map_eq_some_iff.mp hdice
  rw [toOption_eq_some] at he hd
  obtain ⟨hwrite, hread, hgroup⟩ := notation_reads_back {}
  have hbuildable := (hread _ e he).1
  exact ⟨e, d, he, htext, hbuildable, hwrite e hbuildable, hd, hdice, hgroup _ d hd⟩

end DiceTables
