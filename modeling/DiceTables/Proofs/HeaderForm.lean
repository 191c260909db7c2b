import DiceTables.Proofs.Characters
import DiceTables.Proofs.Form
import DiceTables.Proofs.RoundTrip

/-!
Dice notation as people write it in front of a header: blanks around signs, capitals for letters, and
digits of any script. `WrittenAs` says which texts write a form in this way. Such a text starts with a
letter or a digit and ends with a digit, and without its blanks and capitals it is the text of the
form.
-/

namespace DiceTables

open Text Scanner

namespace Notation

/-! ### Ways to write a form -/

/-- A run of decimal digits of any script. -/
def IsDecimalRun (digits : List Char) : Prop := digits ≠ [] ∧ ∀ c ∈ digits, isDecimalDigit c = true

theorem IsRun.isDecimalRun {digits : List Char} (h : IsRun digits) : IsDecimalRun digits := by
  have hall : (Notation.plain.all fun c => !c.isDigit || isDecimalDigit c) = true := by decide +kernel
  refine ⟨h.1, fun c hc => ?_⟩
  simpa [h.2 c hc] using List.all_eq_true.mp hall c (h.plain c hc)

/-- A sign with blanks around it. -/
def Spaced (sign : Char) (s : List Char) : Prop := ∃ before after,
  (∀ c ∈ before, isBlank c = true) ∧ (∀ c ∈ after, isBlank c = true) ∧ s = before ++ sign :: after

/-- The ways to write a keep mode. -/
inductive KeepWrittenAs : Option (KeepSign × List Char) → List Char → Prop
  | none : KeepWrittenAs none []
  | some {sign : KeepSign} {kept s : List Char} {c : Char} (hc : Line.isKeepSign c = true)
      (hsign : lowerCase c = [sign.symbol]) (hs : Spaced c s) :
      KeepWrittenAs (some (sign, kept)) (s ++ kept)

/-- The ways to write a group of dice. -/
def DiceForm.WrittenAs (w : DiceForm) (t : List Char) : Prop := ∃ letter keep,
  Line.isDieLetter letter = true ∧ KeepWrittenAs w.keep? keep ∧
  t = w.count?.getD [] ++ letter :: (w.sides ++ keep)

/-- The ways to write a term. -/
def TermForm.WrittenAs : TermForm → List Char → Prop
  | number digits, t => t = digits
  | dice w, t => w.WrittenAs t

/-- The ways to write the terms after the first one. -/
inductive LinksWrittenAs : List (Op × TermForm) → List Char → Prop
  | nil : LinksWrittenAs [] []
  | cons {op : Op} {w : TermForm} {more : List (Op × TermForm)} {s t u : List Char}
      (hs : Spaced op.symbol s) (ht : w.WrittenAs t) (hu : LinksWrittenAs more u) :
      LinksWrittenAs ((op, w) :: more) (s ++ (t ++ u))

/-- The ways to write an expression. -/
def ExprForm.WrittenAs (w : ExprForm) (t : List Char) : Prop := ∃ first links,
  w.first.WrittenAs first ∧ LinksWrittenAs w.rest links ∧ t = first ++ links

/-! ### Texts are written forms -/

theorem Spaced.single {c : Char} : Spaced c [c] := ⟨[], [], by simp, by simp, rfl⟩

theorem DiceForm.writtenAs_text (w : DiceForm) : w.WrittenAs w.text := by
  refine ⟨'d', keepText w.keep?, rfl, ?_, rfl⟩
  cases w.keep? with
  | none => exact .none
  | some k =>
    obtain ⟨sign, kept⟩ := k
    have hsign : Line.isKeepSign sign.symbol = true ∧ lowerCase sign.symbol = [sign.symbol] := by
      cases sign <;> decide +kernel
    exact .some hsign.1 hsign.2 .single

theorem TermForm.writtenAs_text : ∀ w : TermForm, w.WrittenAs w.text
  | number _ => rfl
  | dice w => w.writtenAs_text

end Notation

namespace Expr

open Notation

theorem linksWrittenAs_text {limits : Limits} : ∀ {rest : List (Op × Term)},
    (∀ p ∈ rest, p.2.Buildable limits) →
    LinksWrittenAs (rest.map fun p => (p.1, p.2.form))
      (rest.flatMap fun p => ' ' :: p.1.symbol :: ' ' :: p.2.text.toList)
  | [], _ => .nil
  | (op, t) :: rest, h => by
    obtain ⟨ht, hrest⟩ := List.forall_mem_cons.mp h
    have hblank : ∀ c ∈ [' '], isBlank c = true := List.forall_mem_singleton.mpr rfl
    have hspaced : Spaced op.symbol [' ', op.symbol, ' '] := ⟨[' '], [' '], hblank, hblank, rfl⟩
    have hterm := t.form.writtenAs_text
    rw [← Term.toList_text ht] at hterm
    exact .cons hspaced hterm (linksWrittenAs_text hrest)

/-- The text of an expression is one of the ways to write it. -/
theorem writtenAs_text {limits : Limits} {e : Expr} (h : ∀ t ∈ e.terms, t.Buildable limits) :
    e.form.WrittenAs e.text.toList := by
  obtain ⟨hfirst, hrest⟩ := List.forall_mem_cons.mp h
  refine ⟨e.first.text.toList, _, ?_,
    linksWrittenAs_text fun p hp => hrest p.2 (List.mem_map_of_mem hp), e.toList_text⟩
  rw [Term.toList_text hfirst]
  exact e.first.form.writtenAs_text

end Expr

namespace Notation

/-! ### Where written forms start and end -/

section

variable {p : Char → Bool}

theorem IsDecimalRun.stops {digits : List Char} (h : IsDecimalRun digits)
    (hdigit : Apart isDecimalDigit p) (rest : List Char) :
    Stops p (digits ++ rest) := by
  obtain ⟨c, more, rfl⟩ := List.exists_cons_of_ne_nil h.1
  exact .cons (hdigit c (h.2 c List.mem_cons_self)) _

theorem IsDecimalRun.stops_reverse {digits : List Char} (h : IsDecimalRun digits)
    (hdigit : Apart isDecimalDigit p) (pre : List Char) :
    Stops p (pre ++ digits).reverse := by
  have hreverse : IsDecimalRun digits.reverse := ⟨by simpa using h.1, by simpa using h.2⟩
  rw [List.reverse_append]
  exact hreverse.stops hdigit _

/-- A text starts with a blank or the sign where it starts with a sign between blanks. -/
theorem Spaced.stops {c : Char} {s : List Char} (h : Spaced c s)
    (hblank : Apart isBlank p) (hc : p c = false) (rest : List Char) :
    Stops p (s ++ rest) := by
  obtain ⟨before, after, hbefore, -, rfl⟩ := h
  cases before with
  | nil => exact .cons hc _
  | cons d before => exact .cons (hblank d (hbefore d List.mem_cons_self)) _

theorem KeepWrittenAs.stops {k : Option (KeepSign × List Char)} {s rest : List Char}
    (h : KeepWrittenAs k s) (hrest : Stops isDecimalDigit rest) :
    Stops isDecimalDigit (s ++ rest) := by
  cases h with
  | none => exact hrest
  | some hc _ hs =>
    rw [List.append_assoc]
    exact hs.stops blank_apart_digit (Line.of_isKeepSign hc).2.1 _

/-- The terms after the first one start with a blank or an operator. -/
theorem LinksWrittenAs.stops {links : List (Op × TermForm)} {t : List Char}
    (h : LinksWrittenAs links t) : Stops isDecimalDigit t ∧ Stops Line.isDieLetter t := by
  cases h with
  | nil => exact ⟨.nil, .nil⟩
  | @cons op w more s t u hs ht hu =>
    obtain ⟨-, -, hdigit, hdie, -⟩ := Line.of_isOpSign (Line.isOpSign_symbol op)
    exact ⟨hs.stops blank_apart_digit hdigit _,
      hs.stops Line.dieLetter_apart_blank.symm hdie _⟩

variable (hdigit : Apart isDecimalDigit p)
  (hletter : Apart Line.isDieLetter p)

include hdigit hletter

theorem DiceForm.WrittenAs.stops {w : DiceForm} {t : List Char} (h : w.WrittenAs t)
    (hw : w.Each IsDecimalRun) (rest : List Char) : Stops p (t ++ rest) := by
  obtain ⟨letter, keep, hdie, -, rfl⟩ := h
  rw [List.append_assoc]
  cases hcount : w.count? with
  | none => exact .cons (hletter letter hdie) _
  | some count => exact ((each_iff.mp hw).1 count hcount).stops hdigit _

theorem TermForm.WrittenAs.stops {w : TermForm} {t : List Char} (h : w.WrittenAs t)
    (hw : w.Each fun _ => IsDecimalRun) (rest : List Char) : Stops p (t ++ rest) := by
  cases w with
  | number digits =>
    obtain rfl : t = digits := h
    exact IsDecimalRun.stops hw hdigit rest
  | dice w => exact DiceForm.WrittenAs.stops hdigit hletter h hw rest

theorem ExprForm.WrittenAs.stops {w : ExprForm} {t : List Char} (h : w.WrittenAs t)
    (hw : w.Each fun _ => IsDecimalRun) (rest : List Char) : Stops p (t ++ rest) := by
  obtain ⟨first, links, hfirst, -, rfl⟩ := h
  rw [List.append_assoc]
  exact hfirst.stops hdigit hletter (hw _ List.mem_cons_self) _

omit hdigit hletter

theorem ExprForm.WrittenAs.ne_nil {w : ExprForm} {t : List Char} (h : w.WrittenAs t)
    (hw : w.Each fun _ => IsDecimalRun) : t ≠ [] := by
  rintro rfl
  have hstops := h.stops blank_apart_digit.symm Line.dieLetter_apart_blank hw [' ']
  exact absurd (hstops ' ' rfl) (by decide)

include hdigit

theorem DiceForm.WrittenAs.stops_reverse {w : DiceForm} {t : List Char} (h : w.WrittenAs t)
    (hw : w.Each IsDecimalRun) (pre : List Char) : Stops p (pre ++ t).reverse := by
  obtain ⟨letter, keep, -, hkeep, rfl⟩ := h
  obtain ⟨-, hsides, hkept⟩ := each_iff.mp hw
  -- a group ends with the number of kept dice, or else with the sides
  generalize w.keep? = k at hkeep hkept
  cases hkeep with
  | none =>
    have hsplit : pre ++ (w.count?.getD [] ++ letter :: (w.sides ++ [])) =
        (pre ++ (w.count?.getD [] ++ [letter])) ++ w.sides := by simp
    rw [hsplit]
    exact hsides.stops_reverse hdigit _
  | @some sign kept s c hc hsign hs =>
    have hsplit : pre ++ (w.count?.getD [] ++ letter :: (w.sides ++ (s ++ kept))) =
        (pre ++ (w.count?.getD [] ++ letter :: (w.sides ++ s))) ++ kept := by simp
    rw [hsplit]
    exact (hkept _ rfl).stops_reverse hdigit _

theorem TermForm.WrittenAs.stops_reverse {w : TermForm} {t : List Char} (h : w.WrittenAs t)
    (hw : w.Each fun _ => IsDecimalRun) (pre : List Char) : Stops p (pre ++ t).reverse := by
  cases w with
  | number digits =>
    obtain rfl : t = digits := h
    exact IsDecimalRun.stops_reverse hw hdigit pre
  | dice w => exact DiceForm.WrittenAs.stops_reverse hdigit h hw pre

theorem LinksWrittenAs.stops_reverse {links : List (Op × TermForm)} {t : List Char}
    (h : LinksWrittenAs links t) (hlinks : ∀ l ∈ links, l.2.Each fun _ => IsDecimalRun)
    {pre : List Char} (hpre : Stops p pre.reverse) : Stops p (pre ++ t).reverse := by
  induction h generalizing pre with
  | nil => rwa [List.append_nil]
  | @cons op w more s t u hs ht hu ih =>
    obtain ⟨hw, hmore⟩ := List.forall_mem_cons.mp hlinks
    have hsplit : pre ++ (s ++ (t ++ u)) = ((pre ++ s) ++ t) ++ u := by simp
    rw [hsplit]
    exact ih hmore (ht.stops_reverse hdigit hw _)

theorem ExprForm.WrittenAs.stops_reverse {w : ExprForm} {t : List Char} (h : w.WrittenAs t)
    (hw : w.Each fun _ => IsDecimalRun) : Stops p t.reverse := by
  obtain ⟨first, links, hfirst, hlinks, rfl⟩ := h
  obtain ⟨hfirstRun, hrest⟩ := List.forall_mem_cons.mp hw
  refine hlinks.stops_reverse hdigit (fun l hl => hrest l.2 (List.mem_map_of_mem hl)) ?_
  exact hfirst.stops_reverse hdigit hfirstRun []

end

/-! ### Written forms without blanks and capitals -/

theorem compact_of_blank {s : List Char} (h : ∀ c ∈ s, isBlank c = true) : compact s = [] := by
  have hnone : s.filter (!isBlank ·) = [] := by
    rw [List.filter_eq_nil_iff]
    intro c hc
    simp [h c hc]
  rw [compact, hnone, List.flatMap_nil]

theorem compact_cons {c : Char} (hc : isBlank c = false) (s : List Char) :
    compact (c :: s) = lowerCase c ++ compact s := by
  rw [compact, List.filter_cons_of_pos (by rw [hc]; rfl), List.flatMap_cons, compact]

theorem Spaced.compact_eq {c : Char} {s : List Char} (h : Spaced c s) (hc : isBlank c = false) :
    compact s = lowerCase c := by
  obtain ⟨before, after, hbefore, hafter, rfl⟩ := h
  rw [compact_append, compact_of_blank hbefore, compact_cons hc, compact_of_blank hafter]
  simp

theorem IsRun.compact_eq {digits : List Char} (h : IsRun digits) : compact digits = digits :=
  compact_of_plain h.plain

theorem KeepWrittenAs.compact_eq {k : Option (KeepSign × List Char)} {s : List Char}
    (h : KeepWrittenAs k s) (hk : ∀ p ∈ k, IsRun p.2) : compact s = DiceForm.keepText k := by
  cases h with
  | none => rfl
  | @some sign kept s c hc hsign hs =>
    rw [compact_append, hs.compact_eq (Line.of_isKeepSign hc).1, hsign, (hk _ rfl).compact_eq]
    rfl

theorem DiceForm.WrittenAs.compact_eq {w : DiceForm} {t : List Char} (h : w.WrittenAs t)
    (hw : w.Each IsRun) : compact t = w.text := by
  obtain ⟨letter, keep, hletter, hkeep, rfl⟩ := h
  obtain ⟨hcount, hsides, hkeepRun⟩ := each_iff.mp hw
  have hcountText : compact (w.count?.getD []) = w.count?.getD [] := by
    cases hc : w.count? with
    | none => rfl
    | some count => exact (hcount count hc).compact_eq
  obtain ⟨hblank, -, -, -, hd⟩ := Line.of_isDieLetter hletter
  rw [compact_append, compact_cons hblank, compact_append, hcountText, hd, hsides.compact_eq,
    hkeep.compact_eq hkeepRun]
  rfl

theorem TermForm.WrittenAs.compact_eq {w : TermForm} {t : List Char} (h : w.WrittenAs t)
    (hw : w.Each fun _ => IsRun) : compact t = w.text := by
  cases w with
  | number digits =>
    obtain rfl : t = digits := h
    exact IsRun.compact_eq hw
  | dice w => exact DiceForm.WrittenAs.compact_eq h hw

theorem LinksWrittenAs.compact_eq {links : List (Op × TermForm)} {t : List Char}
    (h : LinksWrittenAs links t) (hlinks : ∀ l ∈ links, l.2.Each fun _ => IsRun) :
    compact t = links.flatMap TermForm.linkText := by
  induction h with
  | nil => rfl
  | @cons op w more s t u hs ht hu ih =>
    obtain ⟨hw, hmore⟩ := List.forall_mem_cons.mp hlinks
    have hop := of_mem_plain (symbol_mem_plain op)
    rw [compact_append, compact_append, hs.compact_eq hop.1, hop.2.1, ht.compact_eq hw, ih hmore]
    rfl

/-- Without blanks and capitals a written form has the text of the form. -/
theorem ExprForm.WrittenAs.compact_eq {w : ExprForm} {t : List Char} (h : w.WrittenAs t)
    (hw : w.Each fun _ => IsRun) : compact t = w.text := by
  obtain ⟨first, links, hfirst, hlinks, rfl⟩ := h
  obtain ⟨hfirstRun, hrest⟩ := List.forall_mem_cons.mp hw
  rw [compact_append, hfirst.compact_eq hfirstRun,
    hlinks.compact_eq fun l hl => hrest l.2 (List.mem_map_of_mem hl), text]

/-! ### The characters of written forms -/

section

variable {P : Char → Prop} (hblank : ∀ c, isBlank c = true → P c) (halphabet : ∀ c ∈ alphabet, P c)

include hblank

theorem Spaced.forall_mem {sign : Char} {s : List Char} (h : Spaced sign s) (hsign : P sign) :
    ∀ c ∈ s, P c := by
  obtain ⟨before, after, hbefore, hafter, rfl⟩ := h
  refine List.forall_mem_append.mpr ⟨fun c hc => hblank c (hbefore c hc), ?_⟩
  exact List.forall_mem_cons.mpr ⟨hsign, fun c hc => hblank c (hafter c hc)⟩

include halphabet

theorem KeepWrittenAs.forall_mem_iff {k : Option (KeepSign × List Char)} {s : List Char}
    (h : KeepWrittenAs k s) : (∀ c ∈ s, P c) ↔ ∀ p ∈ k, ∀ c ∈ p.2, P c := by
  cases h with
  | none => simp
  | @some sign kept s c hc hsign hs =>
    have hspaced := hs.forall_mem hblank (halphabet c (Line.of_isKeepSign hc).2.2)
    rw [List.forall_mem_append, and_iff_right hspaced]
    simp

theorem DiceForm.WrittenAs.forall_mem_iff {w : DiceForm} {t : List Char} (h : w.WrittenAs t) :
    (∀ c ∈ t, P c) ↔ w.Each fun digits => ∀ c ∈ digits, P c := by
  obtain ⟨letter, keep, hletter, hkeep, rfl⟩ := h
  have hd := halphabet letter (Line.of_isDieLetter hletter).2.2.2.1
  rw [each_iff, List.forall_mem_append, List.forall_mem_cons, and_iff_right hd,
    List.forall_mem_append, hkeep.forall_mem_iff hblank halphabet]
  refine and_congr_left fun _ => ?_
  cases w.count? <;> simp

theorem TermForm.WrittenAs.forall_mem_iff {w : TermForm} {t : List Char} (h : w.WrittenAs t) :
    (∀ c ∈ t, P c) ↔ w.Each fun _ digits => ∀ c ∈ digits, P c := by
  cases w with
  | number digits =>
    obtain rfl : t = digits := h
    rfl
  | dice w => exact DiceForm.WrittenAs.forall_mem_iff hblank halphabet h

theorem LinksWrittenAs.forall_mem_iff {links : List (Op × TermForm)} {t : List Char}
    (h : LinksWrittenAs links t) :
    (∀ c ∈ t, P c) ↔ ∀ l ∈ links, l.2.Each fun _ digits => ∀ c ∈ digits, P c := by
  induction h with
  | nil => simp
  | @cons op w more s t u hs ht hu ih =>
    have hop := halphabet op.symbol (of_mem_plain (symbol_mem_plain op)).2.2.1
    rw [List.forall_mem_append, and_iff_right (hs.forall_mem hblank hop), List.forall_mem_append,
      ht.forall_mem_iff hblank halphabet, ih, List.forall_mem_cons]

/-- What holds of blanks and of the characters of notation holds of all characters of a written form
just if it holds of those of its numbers. -/
theorem ExprForm.WrittenAs.forall_mem_iff {w : ExprForm} {t : List Char} (h : w.WrittenAs t) :
    (∀ c ∈ t, P c) ↔ w.Each fun _ digits => ∀ c ∈ digits, P c := by
  obtain ⟨first, links, hfirst, hlinks, rfl⟩ := h
  rw [List.forall_mem_append, hfirst.forall_mem_iff hblank halphabet,
    hlinks.forall_mem_iff hblank halphabet, Each, terms, List.forall_mem_cons, List.forall_mem_map]

end

end Notation

end DiceTables
