import DiceTables.Proofs.Form

/-!
Readers accept exactly the grammar. Each reader takes what the grammar has for it off the front of a
text, as long as the text does not go on with more of the same, and what it takes is always of the
grammar. No choice that a reader makes early is wrong later: a group of dice is tried before a
number, and a number alone is followed by an operator and never by the letter of a die. The main
statement is that reading goes through for exactly the texts of the grammar, each of which has one
form, and gives the draft of that form.
-/

namespace DiceTables

open Text

namespace Notation

/-! ### Numbers -/

theorem readNumber_append {bound : Nat} {digits rest : List Char} (h : Proper bound digits)
    (hrest : NoDigit rest) : readNumber bound (digits ++ rest) = some (valueOf digits, rest) := by
  obtain ⟨hnumber, hlt⟩ := h
  have htake := Scanner.takeWhile_append hnumber.isRun.2 hrest
  have hdrop := Scanner.dropWhile_append hnumber.isRun.2 hrest
  cases hnumber with
  | zero =>
    have hvalue : valueOf ['0'] = 0 := rfl
    rw [hvalue] at hlt
    simp [readNumber, hvalue, hlt]
  | @digits c more hne hc hmore =>
    rw [List.cons_append] at htake hdrop ⊢
    rw [valueOf] at hlt ⊢
    simp [readNumber, hne, htake, hdrop, hlt]

theorem readNumber_of_noDigit {bound : Nat} {s : List Char} (h : NoDigit s) :
    readNumber bound s = none := by
  cases s with
  | nil => rfl
  | cons c rest =>
    have hc : c.isDigit = false := h c rfl
    have hzero : c ≠ '0' := by
      rintro rfl
      exact absurd hc (by decide)
    simp [readNumber, hzero, hc]

/-- What is read as a number is a number of the grammar. -/
theorem exists_of_readNumber {bound n : Nat} {s rest : List Char}
    (h : readNumber bound s = some (n, rest)) :
    ∃ digits, Proper bound digits ∧ valueOf digits = n ∧ s = digits ++ rest := by
  obtain ⟨hread, hbound⟩ := Option.filter_eq_some_iff.mp h
  replace hbound : n < bound := of_decide_eq_true hbound
  split at hread
  · next tail =>
    obtain ⟨rfl, rfl⟩ := Prod.mk.inj (Option.some.inj hread)
    exact ⟨['0'], ⟨.zero, hbound⟩, rfl, rfl⟩
  · next hzero =>
    split at hread
    · cases hread
    · next digits htake =>
      obtain ⟨rfl, rfl⟩ := Prod.mk.inj (Option.some.inj hread)
      have hsplit := List.takeWhile_append_dropWhile (p := Char.isDigit) (l := s)
      have hall : ∀ c ∈ s.takeWhile Char.isDigit, c.isDigit = true :=
        fun c hc => List.mem_takeWhile_imp hc
      refine ⟨s.takeWhile Char.isDigit, ⟨?_, hbound⟩, rfl, hsplit.symm⟩
      cases hdigits : s.takeWhile Char.isDigit with
      | nil => exact absurd hdigits htake
      | cons c more =>
        rw [hdigits] at hall hsplit
        obtain ⟨hc, hmore⟩ := List.forall_mem_cons.mp hall
        refine .digits ?_ hc hmore
        rintro rfl
        exact hzero _ hsplit.symm

/-! ### Groups of dice -/

theorem AfterTerm.one_d {s : List Char} (h : AfterTerm s) : Scanner.one (· = 'd') s = none := by
  cases s with
  | nil => rfl
  | cons c rest => simp [Scanner.one, (h.head_ne c rfl).2.1]

theorem AfterTerm.readKeep {s : List Char} (h : AfterTerm s) : readKeep s = none := by
  cases s with
  | nil => rfl
  | cons c rest =>
    obtain ⟨-, -, htop, hbottom⟩ := h.head_ne c rfl
    simp [Notation.readKeep, htop, hbottom]

/-- A keep mode is read as it is written; if everything is kept, nothing is written. -/
theorem readKeep_append {k : Option (KeepSign × List Char)} {rest : List Char}
    (hk : ∀ p ∈ k, Proper diceNumberBound p.2) (hrest : AfterTerm rest) :
    (readKeep (DiceForm.keepText k ++ rest)).getD (.all, DiceForm.keepText k ++ rest) =
      (DiceForm.keepMode k, rest) := by
  cases k with
  | none =>
    show (readKeep rest).getD (.all, rest) = (.all, rest)
    rw [hrest.readKeep, Option.getD_none]
  | some p =>
    obtain ⟨sign, kept⟩ := p
    have hread : readDiceNumber (kept ++ rest) = some (valueOf kept, rest) :=
      readNumber_append (hk _ rfl) hrest.noDigit
    cases sign <;> simp [DiceForm.keepText, KeepSign.symbol, readKeep, hread, DiceForm.keepMode,
      KeepSign.keep]

/-- A number of dice is read as it is written; a single die needs none. -/
theorem readCount_append {count? : Option (List Char)}
    (hcount : ∀ count ∈ count?, Proper diceNumberBound count) (rest : List Char) :
    let written := count?.getD [] ++ 'd' :: rest
    (readDiceNumber written).getD (1, written) = ((count?.map valueOf).getD 1, 'd' :: rest) := by
  have hd : NoDigit ('d' :: rest) := Scanner.Stops.cons (by decide) rest
  cases count? with
  | none =>
    show (readDiceNumber ('d' :: rest)).getD (1, 'd' :: rest) = (1, 'd' :: rest)
    rw [readDiceNumber, readNumber_of_noDigit hd, Option.getD_none]
  | some count =>
    show (readDiceNumber (count ++ 'd' :: rest)).getD _ = (valueOf count, 'd' :: rest)
    rw [readDiceNumber, readNumber_append (hcount count rfl) hd, Option.getD_some]

/-- A group of dice of the grammar is read to its end. -/
theorem readDice_append {w : DiceForm} {rest : List Char} (h : w.Each (Proper diceNumberBound))
    (hrest : AfterTerm rest) : readDice (w.text ++ rest) = some (w.request, rest) := by
  obtain ⟨hcount, hsides, hkeep⟩ := DiceForm.each_iff.mp h
  have hnumber : readDiceNumber (w.sides ++ (DiceForm.keepText w.keep? ++ rest)) =
      some (valueOf w.sides, DiceForm.keepText w.keep? ++ rest) :=
    readNumber_append hsides (noDigit_keepText_append w.keep? hrest)
  rw [DiceForm.text, List.append_assoc, List.cons_append, List.append_assoc]
  simp only [readDice, readCount_append hcount]
  simp [Scanner.one, hnumber, readKeep_append hkeep hrest, DiceForm.request]

/-- What is read as a keep mode is one of the grammar. -/
theorem exists_of_readKeep {k : Keep} {s rest : List Char} (h : readKeep s = some (k, rest)) :
    ∃ sign kept, Proper diceNumberBound kept ∧ KeepSign.keep sign (valueOf kept) = k ∧
      s = sign.symbol :: kept ++ rest := by
  unfold readKeep at h
  split at h
  · obtain ⟨⟨n, _⟩, hread, heq⟩ := Option.map_eq_some_iff.mp h
    obtain ⟨rfl, rfl⟩ := Prod.mk.inj heq
    obtain ⟨kept, hproper, rfl, rfl⟩ := exists_of_readNumber hread
    exact ⟨.top, kept, hproper, rfl, rfl⟩
  · obtain ⟨⟨n, _⟩, hread, heq⟩ := Option.map_eq_some_iff.mp h
    obtain ⟨rfl, rfl⟩ := Prod.mk.inj heq
    obtain ⟨kept, hproper, rfl, rfl⟩ := exists_of_readNumber hread
    exact ⟨.bottom, kept, hproper, rfl, rfl⟩
  · cases h

/-- What is read as a group of dice is one of the grammar. -/
theorem exists_of_readDice {r : Dice.Request} {s rest : List Char}
    (h : readDice s = some (r, rest)) :
    ∃ w : DiceForm, w.Each (Proper diceNumberBound) ∧ w.request = r ∧ s = w.text ++ rest := by
  have hcount : ∃ count? : Option (List Char), (∀ count ∈ count?, Proper diceNumberBound count) ∧
      (count?.map valueOf).getD 1 = ((readDiceNumber s).getD (1, s)).1 ∧
      s = count?.getD [] ++ ((readDiceNumber s).getD (1, s)).2 := by
    cases hread : readDiceNumber s with
    | none => exact ⟨none, by simp, rfl, rfl⟩
    | some p =>
      obtain ⟨count, hproper, hvalue, hs⟩ := exists_of_readNumber hread
      exact ⟨some count, by simpa using hproper, hvalue, hs⟩
  have hkeep : ∀ s, ∃ keep? : Option (KeepSign × List Char),
      (∀ p ∈ keep?, Proper diceNumberBound p.2) ∧
      DiceForm.keepMode keep? = ((readKeep s).getD (.all, s)).1 ∧
      s = DiceForm.keepText keep? ++ ((readKeep s).getD (.all, s)).2 := by
    intro s
    cases hread : readKeep s with
    | none => exact ⟨none, by simp, rfl, rfl⟩
    | some p =>
      obtain ⟨sign, kept, hproper, hmode, hs⟩ := exists_of_readKeep hread
      exact ⟨some (sign, kept), by simpa using hproper, hmode, hs⟩
  obtain ⟨count?, hcountProper, hcountValue, hs⟩ := hcount
  unfold readDice at h
  simp only [bind, Option.bind_eq_some_iff, Prod.exists, Option.pure_def] at h
  obtain ⟨_, s₁, hd, sidesValue, s₂, hsides, h⟩ := h
  obtain ⟨c, hc, -, hs₀⟩ := Scanner.one_eq_some.mp hd
  obtain rfl : c = 'd' := of_decide_eq_true hc
  obtain ⟨sides, hsidesProper, rfl, rfl⟩ := exists_of_readNumber hsides
  obtain ⟨keep?, hkeepProper, hkeepMode, hs₂⟩ := hkeep s₂
  obtain ⟨rfl, rfl⟩ := Prod.mk.inj (Option.some.inj h)
  refine ⟨⟨count?, sides, keep?⟩, DiceForm.each_iff.mpr ⟨hcountProper, hsidesProper, hkeepProper⟩,
    ?_, ?_⟩
  · rw [DiceForm.request, hcountValue, hkeepMode]
  · rw [DiceForm.text, List.append_assoc, List.cons_append, List.append_assoc, ← hs₂, ← hs₀, ← hs]

/-- A number in front of what comes after a term begins no group of dice. -/
theorem readDice_of_digits {digits rest : List Char} (hdigits : Proper diceNumberBound digits)
    (hrest : AfterTerm rest) : readDice (digits ++ rest) = none := by
  have hread : readDiceNumber (digits ++ rest) = some (valueOf digits, rest) :=
    readNumber_append hdigits hrest.noDigit
  rw [readDice]
  simp [hread, hrest.one_d]

/-! ### Terms -/

/-- A term of the grammar is read to its end. -/
theorem readTerm_append {w : TermForm} {rest : List Char} (h : w.Each Proper)
    (hrest : AfterTerm rest) : readTerm (w.text ++ rest) = some (w.draft, rest) := by
  cases w with
  | number digits =>
    obtain ⟨hnumber, hlt⟩ := h
    have hsmaller : termNumberBound < diceNumberBound := by decide
    rw [TermForm.text, readTerm, readDice_of_digits ⟨hnumber, hlt.trans hsmaller⟩ hrest,
      readNumber_append ⟨hnumber, hlt⟩ hrest.noDigit]
    rfl
  | dice w =>
    rw [TermForm.text, readTerm, readDice_append h hrest]
    rfl

/-- What is read as a term is one of the grammar. -/
theorem exists_of_readTerm {t : TermDraft} {s rest : List Char}
    (h : readTerm s = some (t, rest)) :
    ∃ w : TermForm, w.Each Proper ∧ w.draft = t ∧ s = w.text ++ rest := by
  rw [readTerm] at h
  cases hdice : readDice s with
  | some p =>
    rw [hdice] at h
    obtain ⟨rfl, rfl⟩ := Prod.mk.inj (Option.some.inj h)
    obtain ⟨w, hproper, hrequest, hs⟩ := exists_of_readDice hdice
    exact ⟨.dice w, hproper, congrArg TermDraft.dice hrequest, hs⟩
  | none =>
    rw [hdice] at h
    obtain ⟨⟨n, _⟩, hnumber, heq⟩ := Option.map_eq_some_iff.mp h
    obtain ⟨rfl, rfl⟩ := Prod.mk.inj heq
    obtain ⟨digits, hproper, rfl, hs⟩ := exists_of_readNumber hnumber
    exact ⟨.number digits, hproper, rfl, hs⟩

/-! ### Expressions -/

open TermForm (linkText)

theorem readLink_append {l : Op × TermForm} {rest : List Char} (h : l.2.Each Proper)
    (hrest : AfterTerm rest) :
    readLink (linkText l ++ rest) = some ((l.1, l.2.draft), rest) := by
  rw [linkText, List.cons_append, readLink, ofSymbol?_symbol]
  simp [readTerm_append h hrest]

/-- Operators and terms of the grammar are read to the end of the text. -/
theorem many_readLink : ∀ {links : List (Op × TermForm)}, (∀ l ∈ links, l.2.Each Proper) →
    Scanner.many readLink (links.flatMap linkText) = (links.map fun l => (l.1, l.2.draft), [])
  | [], _ => Scanner.many_of_none rfl
  | l :: more, h => by
    obtain ⟨hl, hmore⟩ := List.forall_mem_cons.mp h
    have hshorter : (more.flatMap linkText).length <
        (linkText l ++ more.flatMap linkText).length := by
      simp only [linkText, List.cons_append, List.length_cons, List.length_append]
      omega
    rw [List.flatMap_cons, Scanner.many_of_some (readLink_append hl (afterTerm_links more)) hshorter,
      many_readLink hmore]
    rfl

/-- What is read as operators and terms is some of the grammar. -/
theorem exists_of_many_readLink (s : List Char) : ∃ links : List (Op × TermForm),
    (∀ l ∈ links, l.2.Each Proper) ∧
    links.map (fun l => (l.1, l.2.draft)) = (Scanner.many readLink s).1 ∧
    s = links.flatMap linkText ++ (Scanner.many readLink s).2 := by
  fun_induction Scanner.many readLink s with
  | case1 s hnone => exact ⟨[], by simp, rfl, rfl⟩
  | case2 s x rest hsome hshorter xs last hmany ih =>
    obtain ⟨links, hproper, hdrafts, hs⟩ := ih
    rw [hmany] at hdrafts hs
    obtain _ | ⟨c, s⟩ := s
    · cases hsome
    · obtain ⟨op, hop, hsome⟩ := Option.bind_eq_some_iff.mp hsome
      obtain ⟨⟨t, _⟩, hterm, heq⟩ := Option.bind_eq_some_iff.mp hsome
      obtain ⟨rfl, rfl⟩ := Prod.mk.inj (Option.some.inj heq)
      obtain ⟨w, hw, rfl, rfl⟩ := exists_of_readTerm hterm
      obtain rfl := symbol_of_ofSymbol? hop
      refine ⟨(op, w) :: links, List.forall_mem_cons.mpr ⟨hw, hproper⟩, ?_, ?_⟩
      · rw [List.map_cons, hdrafts]
      · rw [List.flatMap_cons, linkText, List.append_assoc, ← hs, List.cons_append]
  | case3 s x rest hsome hlonger => exact ⟨[], by simp, rfl, rfl⟩

/-- An expression of the grammar is read as what it asks for. -/
theorem exprDraft?_text {w : ExprForm} (h : w.Each Proper) : exprDraft? w.text = some w.draft := by
  obtain ⟨hfirst, hrest⟩ := List.forall_mem_cons.mp h
  have hlinks : ∀ l ∈ w.rest, l.2.Each Proper := fun l hl => hrest l.2 (List.mem_map_of_mem hl)
  have hread := readTerm_append hfirst (afterTerm_links w.rest)
  have hmany := many_readLink hlinks
  simp [exprDraft?, whole?, readExpr, ExprForm.text, ExprForm.draft, hread, hmany]

theorem whole?_eq_some {α : Type} {read : Scanner α} {s : List Char} {x : α} :
    whole? read s = some x ↔ read s = some (x, []) := by
  unfold whole?
  split
  · next y hy => simp [hy]
  · next hnone =>
    constructor
    · rintro ⟨⟩
    · exact fun h => absurd h (hnone x)

/-- What is read as an expression is one of the grammar. -/
theorem exists_of_exprDraft? {s : List Char} {d : ExprDraft} (h : exprDraft? s = some d) :
    ∃ w : ExprForm, w.Each Proper ∧ w.draft = d ∧ w.text = s := by
  have hread : readExpr s = some (d, []) := whole?_eq_some.mp h
  obtain ⟨⟨first, s'⟩, hfirst, hrest⟩ := Option.bind_eq_some_iff.mp hread
  obtain ⟨hdraft, hnil⟩ := Prod.mk.inj (Option.some.inj hrest)
  obtain ⟨w, hw, rfl, rfl⟩ := exists_of_readTerm hfirst
  obtain ⟨links, hlinks, hdrafts, hs'⟩ := exists_of_many_readLink s'
  refine ⟨⟨w, links⟩, List.forall_mem_cons.mpr ⟨hw, fun t ht => ?_⟩, ?_, ?_⟩
  · obtain ⟨l, hl, rfl⟩ := List.mem_map.mp ht
    exact hlinks l hl
  · rw [ExprForm.draft, hdrafts]
    exact hdraft
  · rw [hnil, List.append_nil] at hs'
    rw [ExprForm.text, ← hs']

/-! ### Reading and the grammar -/

/-- A group of dice of the grammar with a given text. -/
def DiceForm.Spells (w : DiceForm) (s : List Char) : Prop :=
  w.Each (Proper diceNumberBound) ∧ w.text = s

/-- An expression of the grammar with a given text. -/
def ExprForm.Spells (w : ExprForm) (s : List Char) : Prop := w.Each Proper ∧ w.text = s

theorem DiceForm.Spells.eq {w w' : DiceForm} {s : List Char} (h : w.Spells s)
    (h' : w'.Spells s) : w = w' := by
  obtain ⟨hw, rfl⟩ := h
  obtain ⟨hw', htext⟩ := h'
  have heq : w.text ++ [] = w'.text ++ [] := by rw [htext]
  exact (text_append_inj (fun d hd => (hw d hd).isRun) (fun d hd => (hw' d hd).isRun) .nil .nil
    heq).1

theorem ExprForm.Spells.eq {w w' : ExprForm} {s : List Char} (h : w.Spells s)
    (h' : w'.Spells s) : w = w' := by
  obtain ⟨hw, rfl⟩ := h
  obtain ⟨hw', htext⟩ := h'
  exact text_inj (hw.mono fun _ _ => Proper.isRun) (hw'.mono fun _ _ => Proper.isRun) htext.symm

theorem DiceForm.Spells.diceDraft? {w : DiceForm} {s : List Char} (h : w.Spells s) :
    diceDraft? s = some w.request := by
  obtain ⟨hw, rfl⟩ := h
  have hread := readDice_append hw .nil
  rw [List.append_nil] at hread
  exact whole?_eq_some.mpr hread

theorem DiceForm.exists_of_diceDraft? {s : List Char} {r : Dice.Request}
    (h : diceDraft? s = some r) : ∃ w : DiceForm, w.Spells s ∧ w.request = r := by
  obtain ⟨w, hw, hrequest, hs⟩ := exists_of_readDice (whole?_eq_some.mp h)
  rw [List.append_nil] at hs
  exact ⟨w, ⟨hw, hs.symm⟩, hrequest⟩

/-- The readers accept exactly the grammar. Reading an expression fails if and only if no form of
the grammar has the text; and it gives a draft if and only if there is one such form, no other, and
the draft is what it asks for. The same holds of a group of dice by itself. -/
theorem reads_exactly_grammar (s : List Char) :
    (exprDraft? s = none ↔ ¬ ∃ w : ExprForm, w.Spells s) ∧
    (∀ d, exprDraft? s = some d ↔ ∃ w : ExprForm, w.draft = d ∧ ∀ w', w'.Spells s ↔ w' = w) ∧
    (diceDraft? s = none ↔ ¬ ∃ w : DiceForm, w.Spells s) ∧
    ∀ r, diceDraft? s = some r ↔ ∃ w : DiceForm, w.request = r ∧ ∀ w', w'.Spells s ↔ w' = w := by
  have hexpr : ∀ w : ExprForm, w.Spells s → exprDraft? s = some w.draft := by
    rintro w ⟨hw, rfl⟩
    exact exprDraft?_text hw
  refine ⟨?_, fun d => ⟨fun h => ?_, ?_⟩, ?_, fun r => ⟨fun h => ?_, ?_⟩⟩
  · rw [Option.eq_none_iff_forall_ne_some]
    constructor
    · rintro h ⟨w, hw⟩
      exact h _ (hexpr w hw)
    · intro h d hd
      obtain ⟨w, hw, -, hs⟩ := exists_of_exprDraft? hd
      exact h ⟨w, hw, hs⟩
  · obtain ⟨w, hw, hdraft, hs⟩ := exists_of_exprDraft? h
    exact ⟨w, hdraft, fun w' => ⟨fun hw' => hw'.eq ⟨hw, hs⟩, fun heq => heq ▸ ⟨hw, hs⟩⟩⟩
  · rintro ⟨w, rfl, hw⟩
    exact hexpr w ((hw w).mpr rfl)
  · rw [Option.eq_none_iff_forall_ne_some]
    constructor
    · rintro h ⟨w, hw⟩
      exact h _ hw.diceDraft?
    · intro h r hr
      obtain ⟨w, hw, -⟩ := DiceForm.exists_of_diceDraft? hr
      exact h ⟨w, hw⟩
  · obtain ⟨w, hw, hrequest⟩ := DiceForm.exists_of_diceDraft? h
    exact ⟨w, hrequest, fun w' => ⟨fun hw' => hw'.eq hw, fun heq => heq ▸ hw⟩⟩
  · rintro ⟨w, rfl, hw⟩
    exact ((hw w).mpr rfl).diceDraft?

end Notation

end DiceTables
