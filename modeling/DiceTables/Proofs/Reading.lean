import DiceTables.Proofs.Draft
import DiceTables.Proofs.Grammar
import Mathlib.Tactic.IntervalCases

/-!
What notation writes belongs to its grammar. Each group of dice, term and expression is written in one
form, whose text is the text of the expression without blanks, and which asks for that expression;
its numbers have no zeros in front and fit their words. So reading it gives the draft of the
expression, and the numbers of any draft that is read fit as well.
-/

namespace DiceTables

open Notation

variable {limits : Limits}

namespace Notation

/-! ### Numbers -/

/-- A number other than zero is not written with a zero in front. -/
theorem exists_toDigits_eq_cons {n : Nat} (h : n ≠ 0) :
    ∃ c digits, Nat.toDigits 10 n = c :: digits ∧ c ≠ '0' := by
  induction n using Nat.strong_induction_on with
  | h n ih =>
    by_cases hn : n < 10
    · rw [Nat.toDigits_of_lt_base hn]
      refine ⟨n.digitChar, [], rfl, ?_⟩
      interval_cases n
      · exact absurd rfl h
      all_goals decide
    · obtain ⟨c, digits, heq, hc⟩ := ih (n / 10) (by omega) (by omega)
      refine ⟨c, digits ++ [(n % 10).digitChar], ?_, hc⟩
      rw [Nat.toDigits_of_base_le (by decide) (by omega), heq, List.cons_append]

theorem isDigit_of_mem_toDigits {n : Nat} : ∀ c ∈ Nat.toDigits 10 n, c.isDigit = true :=
  fun _ hc => Nat.isDigit_of_mem_toDigits (by decide) (by decide) hc

theorem valueOf_toDigits (n : Nat) : valueOf (Nat.toDigits 10 n) = n := Nat.ofDigitChars_ten_toDigits

theorem proper_toDigits {bound n : Nat} (hn : n < bound) : Proper bound (Nat.toDigits 10 n) := by
  refine ⟨?_, by rwa [valueOf_toDigits]⟩
  by_cases hzero : n = 0
  · subst hzero
    exact .zero
  · obtain ⟨c, more, heq, hc⟩ := exists_toDigits_eq_cons hzero
    have hdigits := isDigit_of_mem_toDigits (n := n)
    rw [heq] at hdigits ⊢
    obtain ⟨hfirst, hmore⟩ := List.forall_mem_cons.mp hdigits
    exact .digits hc hfirst hmore

end Notation

/-! ### Groups of dice -/

/-- How a keep mode is written; where everything is kept, nothing is. -/
def Keep.form : Keep → Option (KeepSign × List Char)
  | all => none
  | top kept => some (.top, Nat.toDigits 10 kept)
  | bottom kept => some (.bottom, Nat.toDigits 10 kept)

theorem Keep.toList_text : ∀ k : Keep, k.text.toList = DiceForm.keepText k.form
  | all => rfl
  | top kept => by simp [text, form, DiceForm.keepText, KeepSign.symbol]
  | bottom kept => by simp [text, form, DiceForm.keepText, KeepSign.symbol]

theorem Keep.keepMode_form : ∀ k : Keep, DiceForm.keepMode k.form = k
  | all => rfl
  | top kept => congrArg Keep.top (valueOf_toDigits kept)
  | bottom kept => congrArg Keep.bottom (valueOf_toDigits kept)

theorem Keep.form_eq_none_iff {k : Keep} : k.form = none ↔ k = .all := by
  cases k <;> simp [form]

namespace Dice

/-- How a group of dice is written; a single die has no count. -/
def form (d : Dice) : DiceForm where
  count? := if d.count = 1 then none else some (Nat.toDigits 10 d.count)
  sides := Nat.toDigits 10 d.sides
  keep? := d.keep.form

theorem toList_text (d : Dice) : d.text.toList = d.form.text := by
  simp only [text, DiceForm.text, form, String.toList_append, Nat.toString_eq_ofList_toDigits,
    String.toList_ofList, Keep.toList_text, List.append_assoc]
  split <;> simp

theorem request_form (d : Dice) : d.form.request = d.request := by
  simp only [DiceForm.request, form, request, valueOf_toDigits, Keep.keepMode_form]
  split
  · next hone => rw [hone]; rfl
  · rw [Option.map_some, Option.getD_some, valueOf_toDigits]

theorem proper_form (d : Dice) : d.form.Each (Proper diceNumberBound) := by
  have hbound : 65536 < diceNumberBound := by decide
  have hsmall : ∀ {n}, n < 65536 → Proper diceNumberBound (Nat.toDigits 10 n) :=
    fun hn => proper_toDigits (hn.trans hbound)
  have hcount := d.count_lt
  have hkept := d.kept_le_count
  refine DiceForm.each_iff.mpr ⟨?_, hsmall d.sides_lt, ?_⟩
  · rw [form]
    split
    · simp
    · rintro _ ⟨⟩
      exact hsmall hcount
  · intro p hp
    rw [form] at hp
    cases hkeep : d.keep with
    | all => simp [hkeep, Keep.form] at hp
    | top kept | bottom kept =>
      rw [hkeep] at hkept hp
      obtain rfl := Option.some.inj hp
      exact hsmall (Nat.lt_of_le_of_lt hkept hcount)

end Dice

/-! ### Terms -/

theorem Notation.toList_text_num {n : Int} (h : 0 ≤ n) :
    (Term.num n).text.toList = Nat.toDigits 10 n.toNat := by
  obtain ⟨m, rfl⟩ := Int.eq_ofNat_of_zero_le h
  show (toString m).toList = _
  rw [Nat.toString_eq_ofList_toDigits, String.toList_ofList]
  rfl

namespace Term

/-- How a term is written. -/
def form : Term → TermForm
  | num n => .number (Nat.toDigits 10 n.toNat)
  | dice d => .dice d.form

theorem toList_text {t : Term} (h : t.Buildable limits) : t.text.toList = t.form.text := by
  cases t with
  | num n => exact toList_text_num h.1
  | dice d => exact d.toList_text

theorem draft_form (t : Term) : t.form.draft = t.draft := by
  cases t with
  | num n => exact congrArg TermDraft.num (valueOf_toDigits n.toNat)
  | dice d => exact congrArg TermDraft.dice d.request_form

theorem proper_form {t : Term} (h : t.Buildable limits) : t.form.Each Proper := by
  cases t with
  | num n =>
    obtain ⟨hzero, hgreatest⟩ := h
    rw [Whole.greatest] at hgreatest
    have hbound : termNumberBound = 9223372036854775808 := rfl
    exact proper_toDigits (by omega)
  | dice d => exact d.proper_form

end Term

/-! ### Expressions -/

/-- How an expression is written. -/
def Expr.form (e : Expr) : ExprForm where
  first := e.first.form
  rest := e.rest.map fun p => (p.1, p.2.form)

theorem Expr.draft_form (e : Expr) : e.form.draft = e.draft := by
  simp [ExprForm.draft, form, draft, Term.draft_form, Function.comp_def]

theorem Expr.proper_form {e : Expr} (h : ∀ t ∈ e.terms, t.Buildable limits) :
    e.form.Each Proper := by
  obtain ⟨hfirst, hrest⟩ := List.forall_mem_cons.mp h
  refine List.forall_mem_cons.mpr ⟨Term.proper_form hfirst, fun t ht => ?_⟩
  rw [form, List.map_map] at ht
  obtain ⟨p, hp, rfl⟩ := List.mem_map.mp ht
  exact Term.proper_form (hrest p.2 (List.mem_map_of_mem hp))

namespace Notation

/-- An operator and the term after it, without blanks. -/
def linkText (p : Op × Term) : List Char := p.1.symbol :: p.2.text.toList

/-- The text of an expression without blanks is that of its form. -/
theorem text_form {e : Expr} (h : ∀ t ∈ e.terms, t.Buildable limits) :
    e.form.text = e.first.text.toList ++ e.rest.flatMap linkText := by
  obtain ⟨hfirst, hrest⟩ := List.forall_mem_cons.mp h
  rw [ExprForm.text, Expr.form, Term.toList_text hfirst, List.flatMap_map]
  congr 1
  refine List.flatMap_congr fun p hp => ?_
  rw [linkText, Term.toList_text (hrest p.2 (List.mem_map_of_mem hp)), TermForm.linkText]

theorem diceDraft?_text (d : Dice) : diceDraft? d.text.toList = some d.request := by
  have hspells : d.form.Spells d.text.toList := ⟨d.proper_form, d.toList_text.symm⟩
  rw [hspells.diceDraft?, d.request_form]

/-- An expression is read as it is written without blanks. -/
theorem exprDraft?_eq {e : Expr} (h : ∀ t ∈ e.terms, t.Buildable limits) :
    exprDraft? (e.first.text.toList ++ e.rest.flatMap linkText) = some e.draft := by
  rw [← text_form h, exprDraft?_text (Expr.proper_form h), e.draft_form]

/-- The numbers of whatever is read as an expression fit their words. -/
theorem fits_of_exprDraft? {s : List Char} {d : ExprDraft} (h : exprDraft? s = some d) :
    ∀ t ∈ d.terms, t.Fits := by
  obtain ⟨w, hw, rfl, -⟩ := exists_of_exprDraft? h
  have hterms : w.draft.terms = w.terms.map TermForm.draft := by
    simp [ExprDraft.terms, ExprForm.draft, ExprForm.terms]
  intro t ht
  rw [hterms] at ht
  obtain ⟨form, hform, rfl⟩ := List.mem_map.mp ht
  cases form with
  | number digits => exact (hw _ hform).2
  | dice d => trivial

end Notation

end DiceTables
