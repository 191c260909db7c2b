import DiceTables.Proofs.Characters
import DiceTables.Proofs.Draft
import DiceTables.Proofs.Grammar
import Mathlib.Data.List.Nodup

/-!
Why notation is refused. A text is asked for its parentheses first, then for characters that notation
never has, then for its form, then for the number of its groups of dice, and last for the groups
themselves, from left to right; what passes all of that is an expression. `Verdict` says of each answer
when it is the right one, and of these conditions exactly one holds for any text and limits.

Only the characters are looked at in the text as it is written; everything else is read in its compact
form. But case and blanks make no difference there either: only a stranger becomes a stranger in lower
case, and only a parenthesis a parenthesis.
-/

namespace DiceTables

open Text
open List (Forall₂)

variable {limits : Limits}

/-! ### First occurrences -/

section FirstSeen

variable {α : Type} [BEq α]

/-- The list `found` has those elements of `l` that are so, each once, in the order in which they first
come in `l`. -/
structure FirstSeen (IsSo : α → Prop) (l found : List α) : Prop where
  mem_iff : ∀ a, a ∈ found ↔ a ∈ l ∧ IsSo a
  ordered : found.Pairwise fun a b => l.idxOf a < l.idxOf b

theorem FirstSeen.nodup {IsSo : α → Prop} {l found : List α} (h : FirstSeen IsSo l found) :
    found.Nodup := by
  refine h.ordered.imp ?_
  rintro a b hlt rfl
  exact Nat.lt_irrefl _ hlt

theorem FirstSeen.eq {IsSo : α → Prop} {l found found' : List α} (h : FirstSeen IsSo l found)
    (h' : FirstSeen IsSo l found') : found = found' := by
  have hperm : found.Perm found' := (List.perm_ext_iff_of_nodup h.nodup h'.nodup).mpr fun a =>
    (h.mem_iff a).trans (h'.mem_iff a).symm
  exact hperm.eq_of_pairwise (fun a b _ _ hab hba => absurd hab (Nat.lt_asymm hba)) h.ordered
    h'.ordered

theorem pairwise_idxOf_eraseDups [LawfulBEq α] : ∀ (l : List α) (p : α → Bool),
    (l.filter p).eraseDups.Pairwise fun a b => l.idxOf a < l.idxOf b
  | [], _ => by simp
  | c :: l, p => by
    have hshift : ∀ {a : α}, a ≠ c → (c :: l).idxOf a = l.idxOf a + 1 :=
      fun hne => List.idxOf_cons_ne l hne.symm
    have htail : ∀ q : α → Bool, q c = false →
        (l.filter q).eraseDups.Pairwise fun a b => (c :: l).idxOf a < (c :: l).idxOf b := by
      intro q hq
      have hne : ∀ a ∈ (l.filter q).eraseDups, a ≠ c := by
        rintro a ha rfl
        have hqa := (List.mem_filter.mp (List.mem_eraseDups.mp ha)).2
        rw [hq] at hqa
        cases hqa
      refine (pairwise_idxOf_eraseDups l q).imp_of_mem fun {a b} ha hb hab => ?_
      rw [hshift (hne a ha), hshift (hne b hb)]
      exact Nat.succ_lt_succ hab
    cases hp : p c with
    | true =>
      rw [List.filter_cons_of_pos hp, List.eraseDups_cons, List.filter_filter]
      refine List.pairwise_cons.mpr ⟨fun a ha => ?_, htail _ (by simp)⟩
      have hne : a ≠ c := by
        simpa using And.left (by simpa using (List.mem_filter.mp (List.mem_eraseDups.mp ha)).2)
      rw [hshift hne, List.idxOf_cons_self]
      exact Nat.succ_pos _
    | false =>
      rw [List.filter_cons_of_neg (by simp [hp])]
      exact htail p hp

end FirstSeen

/-! ### Characters -/

namespace Notation

/-- A character that notation never has: none of the alphabet, and no blank. -/
def IsStranger (c : Char) : Prop := isBlank c = false ∧ c ∉ alphabet

/-- The text has a parenthesis. -/
def HasParenthesis (s : List Char) : Prop := '(' ∈ s ∨ ')' ∈ s

/-- A text whose characters can all occur in notation. -/
structure Legal (s : List Char) : Prop where
  noParenthesis : ¬ HasParenthesis s
  noStranger : ∀ c ∈ s, ¬ IsStranger c

theorem any_isParenthesis {s : List Char} : s.any isParenthesis = true ↔ HasParenthesis s := by
  simp only [HasParenthesis, List.any_eq_true, isParenthesis, Bool.or_eq_true, decide_eq_true_eq,
    and_or_left, exists_or, exists_eq_right]

theorem firstSeen_strangers (s : List Char) : FirstSeen IsStranger s (strangers s) where
  mem_iff _ := mem_strangers
  ordered := pairwise_idxOf_eraseDups s _

theorem strangers_ne_nil_iff {s : List Char} : strangers s ≠ [] ↔ ∃ c ∈ s, IsStranger c := by
  simp only [ne_eq, List.eq_nil_iff_forall_not_mem, mem_strangers, not_forall, not_not, IsStranger]

/-! ### What is asked for -/

/-- The dice of the term, if it is a group of dice. -/
def TermForm.group? : TermForm → Option DiceForm
  | number _ => none
  | dice g => some g

/-- The groups of dice of an expression, from left to right. -/
def ExprForm.groups (w : ExprForm) : List DiceForm := w.terms.filterMap TermForm.group?

/-- The term has the number or the dice that the form asks for. -/
def TermForm.Means : TermForm → Term → Prop
  | number digits, .num n => n = valueOf digits
  | dice g, .dice d => d.request = g.request
  | _, _ => False

/-- The expression has the operators of the form and the terms it asks for. -/
structure ExprForm.Means (w : ExprForm) (e : Expr) : Prop where
  first : w.first.Means e.first
  rest : Forall₂ (fun l p => l.1 = p.1 ∧ l.2.Means p.2) w.rest e.rest

/-- Whether the dice of the term keep the rules, if it is a group of dice. -/
def TermForm.Allowed (limits : Limits) : TermForm → Prop
  | number _ => True
  | dice g => g.request.Allowed limits

theorem forall_groups_iff {terms : List TermForm} :
    (∀ g ∈ terms.filterMap TermForm.group?, g.request.Allowed limits) ↔
      ∀ t ∈ terms, t.Allowed limits := by
  simp only [List.mem_filterMap, forall_exists_index, and_imp]
  constructor
  · intro h t ht
    cases t with
    | number digits => exact trivial
    | dice g => exact h g _ ht rfl
  · intro h g t ht hg
    cases t with
    | number digits => cases hg
    | dice g' =>
      cases hg
      exact h _ ht

/-- A term is built from a form just if its dice keep the rules, and it has what the form asks for. -/
theorem TermForm.build_draft_eq_ok {w : TermForm} {t : Term} :
    w.draft.build limits = .ok t ↔ w.Allowed limits ∧ w.Means t := by
  cases w with
  | number digits =>
    show Except.ok (Term.num (valueOf digits)) = .ok t ↔ _
    cases t with
    | num n => simp [Allowed, Means, eq_comm]
    | dice d => simp [Means]
  | dice g =>
    rw [draft, TermDraft.build, map_eq_ok, Allowed, Dice.Request.allowed_iff_exists_build]
    simp only [mapError_eq_ok]
    constructor
    · rintro ⟨d, hd, rfl⟩
      exact ⟨⟨d, hd⟩, (Dice.Request.eq_request_of_build hd).symm⟩
    · rintro ⟨⟨d, hd⟩, hmeans⟩
      cases t with
      | num n => exact hmeans.elim
      | dice d' =>
        have hsame : d'.request = d.request :=
          Eq.trans hmeans (Dice.Request.eq_request_of_build hd)
        exact ⟨d, hd, by rw [Dice.request_inj hsame]⟩

/-- A term cannot be built from a form just if its dice break a rule. -/
theorem TermForm.build_draft_eq_dice {w : TermForm} {err : DiceError} :
    w.draft.build limits = .error (.dice err) ↔
      ∃ g, w.group? = some g ∧ g.request.BreaksFirst limits err := by
  cases w with
  | number digits => simp [draft, TermDraft.build, group?]
  | dice g =>
    simp only [group?, Option.some.injEq, exists_eq_left', ← Dice.Request.build_eq_error, draft,
      TermDraft.build]
    cases g.request.build limits <;> simp [Except.mapError, Except.map]

theorem TermForm.exists_build_draft_iff {w : TermForm} :
    (∃ t, w.draft.build limits = .ok t) ↔ w.Allowed limits := by
  constructor
  · rintro ⟨t, ht⟩
    exact (build_draft_eq_ok.mp ht).1
  · intro h
    cases w with
    | number digits => exact ⟨_, rfl⟩
    | dice g =>
      obtain ⟨d, hd⟩ := Dice.Request.allowed_iff_exists_build.mp h
      have hmeans : (TermForm.dice g).Means (.dice d) := (Dice.Request.eq_request_of_build hd).symm
      exact ⟨.dice d, build_draft_eq_ok.mpr ⟨h, hmeans⟩⟩

/-- Numbers keep all rules, so the first term that breaks one is the first group of dice that does. -/
theorem exists_first_group_iff {terms : List TermForm} {err : DiceError} :
    (∃ before t after, terms = before ++ t :: after ∧ (∀ t' ∈ before, t'.Allowed limits) ∧
      ∃ g, t.group? = some g ∧ g.request.BreaksFirst limits err) ↔
    ∃ before g after, terms.filterMap TermForm.group? = before ++ g :: after ∧
      (∀ g' ∈ before, g'.request.Allowed limits) ∧ g.request.BreaksFirst limits err := by
  constructor
  · rintro ⟨before, t, after, rfl, hbefore, g, hg, hbreaks⟩
    refine ⟨before.filterMap TermForm.group?, g, after.filterMap TermForm.group?, ?_,
      forall_groups_iff.mpr hbefore, hbreaks⟩
    rw [List.filterMap_append, List.filterMap_cons_some hg]
  · rintro ⟨before, g, after, hgroups, hbefore, hbreaks⟩
    obtain ⟨front, back, rfl, rfl, hback⟩ := List.filterMap_eq_append_iff.mp hgroups
    obtain ⟨numbers, t, rest, rfl, hnumbers, hg, -⟩ := List.filterMap_eq_cons_iff.mp hback
    refine ⟨front ++ numbers, t, rest, (List.append_assoc ..).symm, ?_, g, hg, hbreaks⟩
    refine List.forall_mem_append.mpr ⟨forall_groups_iff.mp hbefore, fun t' ht' => ?_⟩
    have hnumber := hnumbers t' ht'
    cases t' with
    | number digits => exact trivial
    | dice g' => cases hnumber

theorem ExprForm.terms_draft (w : ExprForm) : w.draft.terms = w.terms.map TermForm.draft := by
  simp [ExprDraft.terms, draft, terms]

theorem ExprForm.diceCount_draft (w : ExprForm) : w.draft.diceCount = w.groups.length := by
  rw [ExprDraft.diceCount, terms_draft, List.countP_map, groups, List.length_filterMap_eq_countP]
  refine List.countP_congr fun t _ => ?_
  cases t <;> simp [TermForm.draft, TermDraft.isDice, TermForm.group?]

theorem ExprForm.build_draft_eq_ok {w : ExprForm} {e : Expr} :
    w.draft.build limits = .ok e ↔ w.groups.length ≤ limits.maxTerms ∧
      (∀ g ∈ w.groups, g.request.Allowed limits) ∧ w.Means e := by
  have hrest : Forall₂ (fun p q => p.1 = q.1 ∧ p.2.build limits = .ok q.2) w.draft.rest e.rest ↔
      (∀ l ∈ w.rest, l.2.Allowed limits) ∧
        Forall₂ (fun l p => l.1 = p.1 ∧ l.2.Means p.2) w.rest e.rest := by
    rw [draft, List.forall₂_map_left_iff, ← List.forall₂_and_left]
    simp only [TermForm.build_draft_eq_ok, and_left_comm]
  have hterms : (∀ g ∈ w.groups, g.request.Allowed limits) ↔
      w.first.Allowed limits ∧ ∀ l ∈ w.rest, l.2.Allowed limits := by
    rw [groups, forall_groups_iff, terms, List.forall_mem_cons, List.forall_mem_map]
  have hmeans : w.Means e ↔ w.first.Means e.first ∧
      Forall₂ (fun l p => l.1 = p.1 ∧ l.2.Means p.2) w.rest e.rest :=
    ⟨fun h => ⟨h.first, h.rest⟩, fun h => ⟨h.1, h.2⟩⟩
  rw [ExprDraft.build_eq_ok, diceCount_draft, hrest, hterms, hmeans]
  show _ ∧ w.first.draft.build limits = .ok e.first ∧ _ ↔ _
  rw [TermForm.build_draft_eq_ok]
  tauto

theorem ExprForm.build_draft_eq_tooManyTerms {w : ExprForm} {count max : Nat} :
    w.draft.build limits = .error (.tooManyTerms count max) ↔
      count = w.groups.length ∧ max = limits.maxTerms ∧ max < count := by
  have hterms : w.draft.terms.mapM (·.build limits) ≠ .error (.tooManyTerms count max) := by
    intro h
    obtain ⟨before, t, after, -, -, ht⟩ := mapM_eq_error.mp h
    obtain ⟨rule, hrule⟩ := TermDraft.exists_of_build_eq_error ht
    cases hrule
  rw [ExprDraft.build_eq_error, diceCount_draft]
  simp only [hterms, and_false, or_false, NotationError.tooManyTerms.injEq]
  constructor
  · rintro ⟨hmany, rfl, rfl⟩
    exact ⟨rfl, rfl, hmany⟩
  · rintro ⟨rfl, rfl, hmany⟩
    exact ⟨hmany, rfl, rfl⟩

theorem ExprForm.build_draft_eq_dice {w : ExprForm} {err : DiceError} :
    w.draft.build limits = .error (.dice err) ↔ w.groups.length ≤ limits.maxTerms ∧
      ∃ before g after, w.groups = before ++ g :: after ∧
        (∀ g' ∈ before, g'.request.Allowed limits) ∧ g.request.BreaksFirst limits err := by
  rw [ExprDraft.build_eq_error, diceCount_draft, terms_draft, List.mapM_map, mapM_eq_error]
  simp only [Function.comp_apply, TermForm.exists_build_draft_iff, TermForm.build_draft_eq_dice,
    exists_first_group_iff, reduceCtorEq, and_false, false_or, groups]

/-! ### Verdicts -/

/-- When an answer about an expression of the grammar is right. -/
def ExprForm.Verdict (w : ExprForm) (limits : Limits) : Except NotationError Expr → Prop
  | .error (.tooManyTerms count max) =>
    count = w.groups.length ∧ max = limits.maxTerms ∧ max < count
  | .error (.dice err) => w.groups.length ≤ limits.maxTerms ∧
    ∃ before g after, w.groups = before ++ g :: after ∧
      (∀ g' ∈ before, g'.request.Allowed limits) ∧ g.request.BreaksFirst limits err
  | .ok e => w.groups.length ≤ limits.maxTerms ∧ (∀ g ∈ w.groups, g.request.Allowed limits) ∧
    w.Means e
  | _ => False

/-- When an answer about a text is right. -/
def Verdict (s : List Char) (limits : Limits) : Except NotationError Expr → Prop
  | .error .grouping => HasParenthesis s
  | .error (.illegalCharacters found) => ¬ HasParenthesis s ∧ (∃ c ∈ s, IsStranger c) ∧
    FirstSeen IsStranger s found.toList
  | .error .malformed => Legal s ∧ ¬ ∃ w : ExprForm, w.Spells (compact s)
  | answer => Legal s ∧ ∃ w : ExprForm, w.Spells (compact s) ∧ w.Verdict limits answer

/-- What is built from a form of the grammar is the right answer, and no other is. -/
theorem ExprForm.build_draft_eq_iff {w : ExprForm} {answer : Except NotationError Expr} :
    w.draft.build limits = answer ↔ w.Verdict limits answer := by
  rcases answer with err | e
  · cases err with
    | tooManyTerms count max => exact build_draft_eq_tooManyTerms
    | dice err => exact build_draft_eq_dice
    | _ =>
      refine iff_of_false (fun h => ?_) id
      rcases ExprDraft.exists_of_build_eq_error h with ⟨count, max, h⟩ | ⟨rule, h⟩ <;> cases h
  · exact build_draft_eq_ok

theorem any_isParenthesis_eq_false {s : List Char} (h : ¬ HasParenthesis s) :
    s.any isParenthesis = false :=
  Bool.eq_false_iff.mpr fun hany => h (any_isParenthesis.mp hany)

/-- If the characters of a text are those of notation, its compact form decides. -/
theorem Legal.ofNotation_eq {s : List Char} (h : Legal s) : Expr.ofNotation s limits =
    (exprDraft? (compact s)).elim (.error .malformed) (·.build limits) := by
  refine Expr.ofNotation_of_legal (any_isParenthesis_eq_false h.noParenthesis) ?_
  by_contra hne
  obtain ⟨c, hc, hstranger⟩ := strangers_ne_nil_iff.mp hne
  exact h.noStranger c hc hstranger

theorem Legal.ofNotation_eq_iff {s : List Char} (h : Legal s)
    {answer : Except NotationError Expr} : Expr.ofNotation s limits = answer ↔
      (answer = .error .malformed ∧ ¬ ∃ w : ExprForm, w.Spells (compact s)) ∨
        ∃ w : ExprForm, w.Spells (compact s) ∧ w.Verdict limits answer := by
  rw [h.ofNotation_eq]
  cases hdraft : exprDraft? (compact s) with
  | none =>
    have hno : ¬ ∃ w : ExprForm, w.Spells (compact s) := by
      rintro ⟨w, hw, htext⟩
      rw [← htext, exprDraft?_text hw] at hdraft
      cases hdraft
    rw [Option.elim_none]
    constructor
    · rintro rfl
      exact .inl ⟨rfl, hno⟩
    · rintro (⟨rfl, -⟩ | ⟨w, hw, -⟩)
      · rfl
      · exact absurd ⟨w, hw⟩ hno
  | some d =>
    obtain ⟨w, hw, rfl, hs⟩ := exists_of_exprDraft? hdraft
    have hspells : w.Spells (compact s) := ⟨hw, hs⟩
    rw [Option.elim_some, ExprForm.build_draft_eq_iff]
    constructor
    · intro hverdict
      exact .inr ⟨w, hspells, hverdict⟩
    · rintro (⟨-, hno⟩ | ⟨w', hw', hverdict⟩)
      · exact absurd ⟨w, hspells⟩ hno
      · rwa [hspells.eq hw']

/-- The answer to a text is the one whose verdict holds. -/
theorem ofNotation_eq_iff {s : List Char} {answer : Except NotationError Expr} :
    Expr.ofNotation s limits = answer ↔ Verdict s limits answer := by
  by_cases hparen : HasParenthesis s
  · have hlegal : ¬ Legal s := fun h => h.noParenthesis hparen
    rw [Expr.ofNotation_of_parenthesis (any_isParenthesis.mpr hparen)]
    rcases answer with err | e
    · cases err <;> simp [Verdict, hparen, hlegal]
    · simp [Verdict, hlegal]
  by_cases hstranger : ∃ c ∈ s, IsStranger c
  · have hlegal : ¬ Legal s := fun h => hstranger.elim fun c hc => h.noStranger c hc.1 hc.2
    rw [Expr.ofNotation_of_strangers (any_isParenthesis_eq_false hparen)
      (strangers_ne_nil_iff.mpr hstranger)]
    rcases answer with err | e
    · cases err with
      | illegalCharacters found =>
        have hfound := firstSeen_strangers s
        constructor
        · intro heq
          cases heq
          exact ⟨hparen, hstranger, by rwa [String.toList_ofList]⟩
        · rintro ⟨-, -, hseen⟩
          rw [hfound.eq hseen, String.ofList_toList]
      | _ => simp [Verdict, hparen, hlegal]
    · simp [Verdict, hlegal]
  · have hlegal : Legal s := ⟨hparen, fun c hc hc' => hstranger ⟨c, hc, hc'⟩⟩
    rw [hlegal.ofNotation_eq_iff]
    rcases answer with err | e
    · cases err <;> simp [Verdict, hparen, hlegal, hstranger, ExprForm.Verdict]
    · simp [Verdict, hlegal]

/-! ### Case and blanks -/

theorem mem_compact {s : List Char} {d : Char} :
    d ∈ compact s ↔ ∃ c ∈ s, isBlank c = false ∧ d ∈ lowerCase c := by
  simp [compact, and_assoc]

theorem exists_mem_lowerCase (c : Char) : ∃ d, d ∈ lowerCase c := by
  rw [lowerCase]
  split
  · exact ⟨_, List.mem_cons_self⟩
  · exact ⟨_, List.mem_cons_self⟩

theorem any_isParenthesis_compact (s : List Char) :
    (compact s).any isParenthesis = s.any isParenthesis := by
  have hsame : ∀ c, isParenthesis c = true → isBlank c = false ∧ lowerCase c = [c] := by
    intro c hc
    simp only [isParenthesis, Bool.or_eq_true, decide_eq_true_eq] at hc
    obtain rfl | rfl := hc <;> decide +kernel
  rw [Bool.eq_iff_iff, List.any_eq_true, List.any_eq_true]
  constructor
  · rintro ⟨d, hd, hparen⟩
    obtain ⟨c, hc, -, hlower⟩ := mem_compact.mp hd
    exact ⟨c, hc, isParenthesis_of_mem_lowerCase hlower hparen⟩
  · rintro ⟨c, hc, hparen⟩
    obtain ⟨hblank, hlower⟩ := hsame c hparen
    exact ⟨c, mem_compact.mpr ⟨c, hc, hblank, by rw [hlower]; exact List.mem_cons_self⟩, hparen⟩

/-- A text has strangers just if its compact form has. -/
theorem exists_stranger_iff {s : List Char} :
    (∃ c ∈ s, IsStranger c) ↔ ∃ d ∈ compact s, d ∉ alphabet := by
  constructor
  · rintro ⟨c, hc, hblank, hstranger⟩
    obtain ⟨d, hd⟩ := exists_mem_lowerCase c
    exact ⟨d, mem_compact.mpr ⟨c, hc, hblank, hd⟩,
      fun hmem => hstranger (mem_alphabet_of_mem_lowerCase hd hmem)⟩
  · rintro ⟨d, hd, hstranger⟩
    obtain ⟨c, hc, hblank, hlower⟩ := mem_compact.mp hd
    have hall : (alphabet.all fun c => (lowerCase c).all alphabet.contains) = true := by
      decide +kernel
    refine ⟨c, hc, hblank, fun hmem => hstranger ?_⟩
    have hcontains := List.all_eq_true.mp (List.all_eq_true.mp hall c hmem) d hlower
    exact List.contains_iff_mem.mp hcontains

/-- Texts with the same compact form are answered alike, except that each hears of its own strangers. -/
theorem ofNotation_of_compact_eq {s s' : List Char} (h : compact s' = compact s) :
    Expr.ofNotation s' limits = Expr.ofNotation s limits ∨ ∃ found found',
      Expr.ofNotation s limits = .error (.illegalCharacters found) ∧
        Expr.ofNotation s' limits = .error (.illegalCharacters found') := by
  have hany : s'.any isParenthesis = s.any isParenthesis := by
    rw [← any_isParenthesis_compact, h, any_isParenthesis_compact]
  have hstrangers : strangers s' ≠ [] ↔ strangers s ≠ [] := by
    rw [strangers_ne_nil_iff, exists_stranger_iff, h, ← exists_stranger_iff, strangers_ne_nil_iff]
  cases hparen : s.any isParenthesis with
  | true =>
    left
    rw [Expr.ofNotation_of_parenthesis hparen, Expr.ofNotation_of_parenthesis (hany.trans hparen)]
  | false =>
    by_cases hnone : strangers s = []
    · have hnone' : strangers s' = [] := of_not_not fun hne => hstrangers.mp hne hnone
      left
      rw [Expr.ofNotation_of_legal hparen hnone, Expr.ofNotation_of_legal (hany.trans hparen) hnone',
        h]
    · exact .inr ⟨_, _, Expr.ofNotation_of_strangers hparen hnone,
        Expr.ofNotation_of_strangers (hany.trans hparen) (hstrangers.mpr hnone)⟩

end Notation

open Notation

/-- What is made of a text as an expression is decided in order: by its parentheses, by the characters
that notation never has, by its form, by the number of its groups of dice, and by the first of them
that breaks a rule; and if nothing of all that stands in the way, it is the expression that the text
asks for. Case and blanks make no difference to that. -/
theorem Expr.ofNotation_decided_in_order (s : List Char) (limits : Limits) :
    (∀ answer, Expr.ofNotation s limits = answer ↔ Verdict s limits answer) ∧
    ∀ s', compact s' = compact s →
      Expr.ofNotation s' limits = Expr.ofNotation s limits ∨ ∃ found found',
        Expr.ofNotation s limits = .error (.illegalCharacters found) ∧
          Expr.ofNotation s' limits = .error (.illegalCharacters found') :=
  ⟨fun _ => ofNotation_eq_iff, fun _ h => ofNotation_of_compact_eq h⟩

/-- A capital and some blanks more or less: the expression is the same. -/
theorem Expr.ofNotation_spaced : ∃ e, Verdict "2D6 + 1".toList {} (.ok e) ∧
    compact " 2d6+1\t".toList = compact "2D6 + 1".toList ∧
      Expr.ofNotation " 2d6+1\t".toList {} = .ok e := by
  obtain ⟨hverdict, halike⟩ := ofNotation_decided_in_order "2D6 + 1".toList {}
  have hcompact : compact " 2d6+1\t".toList = compact "2D6 + 1".toList := by decide +kernel
  have hsome : (Expr.ofNotation "2D6 + 1".toList {}).toOption.isSome = true := by decide +kernel
  obtain ⟨e, he⟩ := Option.isSome_iff_exists.mp hsome
  rw [toOption_eq_some] at he
  refine ⟨e, (hverdict _).mp he, hcompact, ?_⟩
  rcases halike _ hcompact with hsame | ⟨found, found', hillegal, -⟩
  · rw [hsame, he]
  · rw [he] at hillegal
    cases hillegal

end DiceTables
