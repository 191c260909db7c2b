import DiceTables.Notation.Basic
import DiceTables.Proofs.Computation
import DiceTables.Proofs.DiceRules

/-!
What has to be asked for to get a given expression. A draft holds an expression as it is written, and
building it checks the limits. An expression that keeps to the limits is built from exactly one
draft whose numbers fit a word, and building goes through just for those. What a text stands for is
what is built from the draft that is read in it.
-/

namespace DiceTables

variable {limits : Limits}

/-! ### Groups of dice -/

/-- What has to be asked for to get a group of dice. -/
def Dice.request (d : Dice) : Dice.Request where
  count := d.count
  sides := d.sides
  keep := d.keep

/-- Dice that are asked for alike are alike. -/
theorem Dice.request_inj {d d' : Dice} (h : d.request = d'.request) : d = d' := by
  cases d
  cases d'
  simp_all [request]

namespace Dice.Request

theorem eq_request_of_build {r : Request} {d : Dice} (h : r.build limits = .ok d) :
    r = d.request := by
  obtain ⟨-, hcount, hsides, hkeep⟩ := of_build_eq_ok h
  rw [Dice.request, hcount, hsides, hkeep]

theorem build_request {r : Request} {d : Dice} (h : r.build limits = .ok d) :
    d.request.build limits = .ok d := by
  rwa [← eq_request_of_build h]

end Dice.Request

/-! ### Terms -/

namespace Term

/-- A term that can be asked for: a number that is not negative and fits a word, or dice within the
limits. -/
def Buildable (limits : Limits) : Term → Prop
  | num n => 0 ≤ n ∧ n ≤ Whole.greatest
  | dice d => ∃ r : Dice.Request, r.build limits = .ok d

/-- What has to be asked for to get a term. -/
def draft : Term → TermDraft
  | num n => .num n.toNat
  | dice d => .dice d.request

theorem isDice_draft (t : Term) : t.draft.isDice = t.isDice := by
  cases t <;> rfl

theorem Buildable.build_draft {t : Term} (h : t.Buildable limits) :
    t.draft.build limits = .ok t := by
  cases t with
  | num n =>
    show Except.ok (Term.num (n.toNat : Int)) = .ok (.num n)
    rw [Int.toNat_of_nonneg h.1]
  | dice d =>
    obtain ⟨r, hr⟩ := h
    rw [draft, TermDraft.build, Dice.Request.build_request hr]
    rfl

end Term

namespace TermDraft

/-- A number that fits a word with a sign, or dice. -/
def Fits : TermDraft → Prop
  | num n => n < Notation.termNumberBound
  | dice _ => True

/-- A term fails to be built for a rule that its dice break. -/
theorem exists_of_build_eq_error {d : TermDraft} {err : NotationError}
    (h : d.build limits = .error err) : ∃ rule, err = .dice rule := by
  cases d with
  | num n => cases h
  | dice r =>
    rw [build] at h
    cases hr : r.build limits with
    | error rule =>
      rw [hr] at h
      cases h
      exact ⟨rule, rfl⟩
    | ok d =>
      rw [hr] at h
      cases h

theorem of_build {d : TermDraft} {t : Term} (hfits : d.Fits) (h : d.build limits = .ok t) :
    d = t.draft ∧ t.Buildable limits := by
  cases d with
  | num n =>
    cases h
    have hlt : n < 9223372036854775808 := hfits
    refine ⟨by rw [Term.draft, Int.toNat_natCast], Int.natCast_nonneg n, ?_⟩
    rw [Whole.greatest]
    omega
  | dice r =>
    obtain ⟨d, hd, rfl⟩ := map_eq_ok.mp h
    rw [mapError_eq_ok] at hd
    exact ⟨by rw [Term.draft, Dice.Request.eq_request_of_build hd], r, hd⟩

end TermDraft

/-! ### Expressions -/

namespace ExprDraft

/-- An expression is built from a draft term by term, if there are not too many groups of dice. -/
theorem build_eq_ok {d : ExprDraft} {e : Expr} :
    d.build limits = .ok e ↔ d.diceCount ≤ limits.maxTerms ∧ d.first.build limits = .ok e.first ∧
      List.Forall₂ (fun p q => p.1 = q.1 ∧ p.2.build limits = .ok q.2) d.rest e.rest := by
  have hterm : ∀ (p : Op × TermDraft) (q : Op × Term),
      (do return (p.1, ← p.2.build limits) : Except NotationError (Op × Term)) = .ok q ↔
        p.1 = q.1 ∧ p.2.build limits = .ok q.2 := by
    rintro p ⟨op, t⟩
    rw [bind_eq_ok]
    constructor
    · rintro ⟨t, ht, ⟨⟩⟩
      exact ⟨rfl, ht⟩
    · rintro ⟨rfl, ht⟩
      exact ⟨t, ht, rfl⟩
  rw [build]
  split
  · next hmany => simp [Nat.not_le.mpr hmany]
  · next hfew =>
    simp only [bind_eq_ok, mapM_eq_ok, hterm]
    constructor
    · rintro ⟨first, hfirst, rest, hrest, ⟨⟩⟩
      exact ⟨Nat.le_of_not_lt hfew, hfirst, hrest⟩
    · rintro ⟨-, hfirst, hrest⟩
      exact ⟨e.first, hfirst, e.rest, hrest, rfl⟩

/-- An expression fails to be built for too many groups of dice, or else with the failure of its terms
from left to right. -/
theorem build_eq_error {d : ExprDraft} {err : NotationError} :
    d.build limits = .error err ↔
      (limits.maxTerms < d.diceCount ∧ err = .tooManyTerms d.diceCount limits.maxTerms) ∨
        (d.diceCount ≤ limits.maxTerms ∧ d.terms.mapM (·.build limits) = .error err) := by
  rw [build]
  split
  · next hmany => simp [hmany, Nat.not_le.mpr hmany, eq_comm]
  · next hfew =>
    have hrest : d.rest.mapM (fun p => do return (p.1, ← p.2.build limits)) = .error err ↔
        (d.rest.map (·.2)).mapM (·.build limits) = .error err := by
      rw [List.mapM_map]
      exact mapM_eq_error_congr fun _ _ => bind_pure_eq_error
    rw [bind_eq_error, terms, List.mapM_cons, bind_eq_error]
    simp only [bind_pure_eq_error, hrest, hfew, Nat.le_of_not_lt hfew, false_and, true_and, false_or]

/-- An expression fails to be built for too many groups of dice or for a rule that one of them
breaks. -/
theorem exists_of_build_eq_error {d : ExprDraft} {err : NotationError}
    (h : d.build limits = .error err) :
    (∃ count max, err = .tooManyTerms count max) ∨ ∃ rule, err = .dice rule := by
  rcases build_eq_error.mp h with ⟨-, rfl⟩ | ⟨-, h⟩
  · exact .inl ⟨_, _, rfl⟩
  · obtain ⟨before, t, after, -, -, ht⟩ := mapM_eq_error.mp h
    exact .inr (TermDraft.exists_of_build_eq_error ht)

end ExprDraft

namespace Expr

/-- An expression that can be asked for: all its terms can, and it has no more groups of dice than
the limits allow. -/
structure Buildable (limits : Limits) (e : Expr) : Prop where
  terms : ∀ t ∈ e.terms, t.Buildable limits
  diceCount_le : e.diceCount ≤ limits.maxTerms

/-- What has to be asked for to get an expression. -/
def draft (e : Expr) : ExprDraft where
  first := e.first.draft
  rest := e.rest.map fun p => (p.1, p.2.draft)

theorem diceCount_draft (e : Expr) : e.draft.diceCount = e.diceCount := by
  simp only [ExprDraft.diceCount, ExprDraft.terms, draft, diceCount, terms, List.map_map,
    List.countP_cons, List.countP_map, Function.comp_def, Term.isDice_draft]

theorem Buildable.build_draft {e : Expr} (h : e.Buildable limits) :
    e.draft.build limits = .ok e := by
  obtain ⟨hfirst, hrest⟩ := List.forall_mem_cons.mp h.terms
  refine ExprDraft.build_eq_ok.mpr ⟨?_, hfirst.build_draft, ?_⟩
  · rw [diceCount_draft]
    exact h.diceCount_le
  · refine List.forall₂_map_left_iff.mpr (List.forall₂_same.mpr fun p hp => ⟨rfl, ?_⟩)
    exact (hrest p.2 (List.mem_map_of_mem hp)).build_draft

end Expr

/-- The draft that an expression was built from is that of the expression. -/
theorem ExprDraft.of_build {d : ExprDraft} {e : Expr} (hfits : ∀ t ∈ d.terms, t.Fits)
    (h : d.build limits = .ok e) : d = e.draft ∧ e.Buildable limits := by
  obtain ⟨hcount, hfirst, hrest⟩ := build_eq_ok.mp h
  obtain ⟨hfitsFirst, hfitsRest⟩ := List.forall_mem_cons.mp hfits
  have hbuild := TermDraft.of_build hfitsFirst hfirst
  have hall : ∀ p ∈ d.rest, p.2.Fits := fun p hp => hfitsRest p.2 (List.mem_map_of_mem hp)
  have hpairs : List.Forall₂ (fun p q => p = (q.1, q.2.draft) ∧ q.2.Buildable limits) d.rest
      e.rest := by
    refine ((List.forall₂_and_left ..).mpr ⟨hall, hrest⟩).imp ?_
    rintro ⟨op, t'⟩ q ⟨hfits, rfl, ht⟩
    obtain ⟨rfl, hq⟩ := TermDraft.of_build hfits ht
    exact ⟨rfl, hq⟩
  have hdraft : d = e.draft := by
    have hdrafts : List.Forall₂ (· = ·) d.rest (e.rest.map fun p => (p.1, p.2.draft)) :=
      List.forall₂_map_right_iff.mpr (hpairs.imp fun _ _ h => h.1)
    rw [List.forall₂_eq_eq_eq] at hdrafts
    cases d
    simp_all [Expr.draft]
  refine ⟨hdraft, List.forall_mem_cons.mpr ⟨hbuild.2, fun t ht => ?_⟩, ?_⟩
  · obtain ⟨q, hq, rfl⟩ := List.mem_map.mp ht
    obtain ⟨p, -, -, hbuildable⟩ := exists_mem_of_forall₂ hpairs q hq
    exact hbuildable
  · rwa [← Expr.diceCount_draft, ← hdraft]

/-! ### What a text stands for -/

theorem Dice.ofNotation_eq_ok {s : List Char} {d : Dice} :
    Dice.ofNotation s limits = .ok d ↔
      ∃ r, Notation.diceDraft? (Notation.compact s) = some r ∧ r.build limits = .ok d := by
  rw [ofNotation]
  cases Notation.diceDraft? (Notation.compact s) with
  | none => simp
  | some r => simp [mapError_eq_ok]

theorem Expr.ofNotation_eq_ok {s : List Char} {e : Expr} :
    Expr.ofNotation s limits = .ok e ↔ Notation.checkAlphabet s = .ok () ∧
      ∃ d, Notation.exprDraft? (Notation.compact s) = some d ∧ d.build limits = .ok e := by
  rw [ofNotation, bind_eq_ok, Unique.exists_iff, PUnit.default_eq_unit]
  refine and_congr_right fun _ => ?_
  cases Notation.exprDraft? (Notation.compact s) with
  | none => simp
  | some d => simp

/-- Parentheses are complained of first. -/
theorem Expr.ofNotation_of_parenthesis {s : List Char} (h : s.any Notation.isParenthesis = true) :
    Expr.ofNotation s limits = .error .grouping := by
  rw [ofNotation, Notation.checkAlphabet, if_pos h]
  rfl

/-- Then characters are complained of that notation never has. -/
theorem Expr.ofNotation_of_strangers {s : List Char} (h : s.any Notation.isParenthesis = false)
    (hstrangers : Notation.strangers s ≠ []) : Expr.ofNotation s limits =
      .error (.illegalCharacters (String.ofList (Notation.strangers s))) := by
  rw [ofNotation, Notation.checkAlphabet, if_neg (Bool.eq_false_iff.mp h),
    if_neg (by rwa [List.isEmpty_iff])]
  rfl

/-- Otherwise it is the form that decides, and then the limits. -/
theorem Expr.ofNotation_of_legal {s : List Char} (h : s.any Notation.isParenthesis = false)
    (hstrangers : Notation.strangers s = []) : Expr.ofNotation s limits =
      (Notation.exprDraft? (Notation.compact s)).elim (.error .malformed) (·.build limits) := by
  rw [ofNotation, Notation.checkAlphabet, if_neg (Bool.eq_false_iff.mp h),
    if_pos (by rw [hstrangers]; rfl)]
  cases Notation.exprDraft? (Notation.compact s) <;> rfl

end DiceTables
