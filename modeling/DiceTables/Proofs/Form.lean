import DiceTables.Notation.Draft
import DiceTables.Proofs.Scanning
import Mathlib.Data.Nat.Digits.Defs

/-!
The grammar of compact notation. A form is an expression whose numbers are still runs of digits; its
text puts its parts one after the other, and its draft is what it asks for. A form belongs to the
grammar if each of its numbers does: a number is `0` or starts with another digit, and it fits its
word.

A run of digits ends where no digit follows, and that keeps forms apart: no two of them have the same
text, even if some of their runs are no numbers of the grammar.
-/

namespace DiceTables

open Text

namespace Notation

/-! ### Numbers -/

/-- A number of the grammar: `0` by itself, or digits of which the first is another one. -/
inductive IsNumber : List Char → Prop
  | zero : IsNumber ['0']
  | digits {c : Char} {more : List Char} (hne : c ≠ '0') (hc : c.isDigit = true)
      (hmore : ∀ d ∈ more, d.isDigit = true) : IsNumber (c :: more)

/-- The number that a run of digits stands for. -/
def valueOf (digits : List Char) : Nat := Nat.ofDigitChars 10 digits 0

/-- A number of the grammar that lies below a bound. -/
def Proper (bound : Nat) (digits : List Char) : Prop := IsNumber digits ∧ valueOf digits < bound

/-- A run of digits, which may start with any of them. -/
def IsRun (digits : List Char) : Prop := digits ≠ [] ∧ ∀ c ∈ digits, c.isDigit = true

theorem IsNumber.isRun {digits : List Char} (h : IsNumber digits) : IsRun digits := by
  cases h with
  | zero => exact ⟨by decide, List.forall_mem_singleton.mpr rfl⟩
  | digits _ hc hmore => exact ⟨List.cons_ne_nil _ _, List.forall_mem_cons.mpr ⟨hc, hmore⟩⟩

theorem Proper.isRun {bound : Nat} {digits : List Char} (h : Proper bound digits) : IsRun digits :=
  h.1.isRun

/-- A text that does not go on with a digit. -/
def NoDigit (s : List Char) : Prop := ∀ c ∈ s.head?, c.isDigit = false

/-! ### Groups of dice -/

/-- The sign of a keep mode. -/
inductive KeepSign where
  /-- The highest dice count. -/
  | top
  /-- The lowest dice count. -/
  | bottom
deriving DecidableEq

namespace KeepSign

/-- The sign as it is written. -/
def symbol : KeepSign → Char
  | top => '^'
  | bottom => 'v'

/-- The keep mode with this sign. -/
def keep : KeepSign → Nat → Keep
  | top => .top
  | bottom => .bottom

end KeepSign

/-- A group of dice of the grammar: `[count] d sides [^ or v kept]`. -/
structure DiceForm where
  /-- The number of dice, which may be left out. -/
  count? : Option (List Char)
  /-- The number of sides. -/
  sides : List Char
  /-- The sign of the keep mode and how many dice are kept, which may be left out. -/
  keep? : Option (KeepSign × List Char)

namespace DiceForm

/-- The keep mode as it ends the text. -/
def keepText : Option (KeepSign × List Char) → List Char
  | none => []
  | some (sign, kept) => sign.symbol :: kept

/-- The form with its parts one after the other. -/
def text (w : DiceForm) : List Char := w.count?.getD [] ++ 'd' :: (w.sides ++ keepText w.keep?)

/-- The keep mode that is asked for. -/
def keepMode : Option (KeepSign × List Char) → Keep
  | none => .all
  | some (sign, kept) => sign.keep (valueOf kept)

/-- What is asked for: one die where no number is given, and all of them where no mode is. -/
def request (w : DiceForm) : Dice.Request where
  count := (w.count?.map valueOf).getD 1
  sides := valueOf w.sides
  keep := keepMode w.keep?

/-- The numbers of the form. -/
def numbers (w : DiceForm) : List (List Char) :=
  w.count?.toList ++ w.sides :: (w.keep?.map (·.2)).toList

/-- Whether each number of the form has a property. -/
def Each (P : List Char → Prop) (w : DiceForm) : Prop := ∀ digits ∈ w.numbers, P digits

theorem each_iff {P : List Char → Prop} {w : DiceForm} : w.Each P ↔
    (∀ count ∈ w.count?, P count) ∧ P w.sides ∧ ∀ k ∈ w.keep?, P k.2 := by
  simp only [Each, numbers, List.forall_mem_append, List.forall_mem_cons, Option.mem_toList,
    Option.mem_def, Option.map_eq_some_iff, forall_exists_index, and_imp, forall_apply_eq_imp_iff₂]

/-- What holds of the characters of all numbers holds of those of the count, if there is one. -/
theorem Each.forall_mem_count {P : List Char → Prop} {Q : Char → Prop} {w : DiceForm} (hw : w.Each P)
    (h : ∀ digits, P digits → ∀ c ∈ digits, Q c) : ∀ c ∈ w.count?.getD [], Q c := by
  cases hcount : w.count? with
  | none => simp
  | some count => exact h count ((each_iff.mp hw).1 count hcount)

end DiceForm

/-! ### Terms -/

/-- A term of the grammar. -/
inductive TermForm where
  /-- A number. -/
  | number (digits : List Char)
  /-- A group of dice. -/
  | dice (w : DiceForm)

namespace TermForm

/-- The text of a term. -/
def text : TermForm → List Char
  | number digits => digits
  | dice w => w.text

/-- What is asked for. -/
def draft : TermForm → TermDraft
  | number digits => .num (valueOf digits)
  | dice w => .dice w.request

/-- Whether each number of the term has a property, which depends on the bound of the number. -/
def Each (P : Nat → List Char → Prop) : TermForm → Prop
  | number digits => P termNumberBound digits
  | dice w => w.Each (P diceNumberBound)

end TermForm

theorem TermForm.Each.mono {P Q : Nat → List Char → Prop} {w : TermForm} (h : w.Each P)
    (hPQ : ∀ bound digits, P bound digits → Q bound digits) : w.Each Q := by
  cases w with
  | number digits => exact hPQ _ _ h
  | dice d => exact fun digits hd => hPQ _ _ (h digits hd)

theorem TermForm.Each.and {P Q : Nat → List Char → Prop} {w : TermForm} (hP : w.Each P)
    (hQ : w.Each Q) : w.Each fun bound digits => P bound digits ∧ Q bound digits := by
  cases w with
  | number digits => exact ⟨hP, hQ⟩
  | dice d => exact fun digits hd => ⟨hP digits hd, hQ digits hd⟩

/-! ### Expressions -/

/-- The text of an operator and the term after it. -/
def TermForm.linkText (l : Op × TermForm) : List Char := l.1.symbol :: l.2.text

open TermForm (linkText)

/-- An expression of the grammar: a term, and each further one with the operator before it. -/
structure ExprForm where
  /-- The first term. -/
  first : TermForm
  /-- The terms after it. -/
  rest : List (Op × TermForm)

namespace ExprForm

/-- The terms from left to right. -/
def terms (w : ExprForm) : List TermForm := w.first :: w.rest.map (·.2)

/-- The text of an expression. -/
def text (w : ExprForm) : List Char := w.first.text ++ w.rest.flatMap linkText

/-- What is asked for, from left to right. -/
def draft (w : ExprForm) : ExprDraft where
  first := w.first.draft
  rest := w.rest.map fun l => (l.1, l.2.draft)

/-- Whether each number of the expression has a property, which depends on its bound. -/
def Each (P : Nat → List Char → Prop) (w : ExprForm) : Prop := ∀ t ∈ w.terms, t.Each P

end ExprForm

theorem ExprForm.Each.and {P Q : Nat → List Char → Prop} {w : ExprForm} (hP : w.Each P)
    (hQ : w.Each Q) : w.Each fun bound digits => P bound digits ∧ Q bound digits :=
  fun t ht => (hP t ht).and (hQ t ht)

theorem ExprForm.Each.mono {P Q : Nat → List Char → Prop} {w : ExprForm} (h : w.Each P)
    (hPQ : ∀ bound digits, P bound digits → Q bound digits) : w.Each Q :=
  fun t ht => (h t ht).mono hPQ

/-! ### What may come after a term -/

/-- A text that goes on with an operator, if at all. -/
def AfterTerm (s : List Char) : Prop := ∀ c ∈ s.head?, ∃ op : Op, c = op.symbol

theorem AfterTerm.nil : AfterTerm [] := by
  intro c hc
  cases hc

theorem AfterTerm.cons (op : Op) (rest : List Char) : AfterTerm (op.symbol :: rest) := by
  intro c hc
  exact ⟨op, (Option.some_inj.mp hc).symm⟩

/-- No operator is a digit or a sign in a group of dice. -/
theorem AfterTerm.head_ne {s : List Char} (h : AfterTerm s) :
    ∀ c ∈ s.head?, c.isDigit = false ∧ c ≠ 'd' ∧ c ≠ '^' ∧ c ≠ 'v' := by
  intro c hc
  obtain ⟨op, rfl⟩ := h c hc
  cases op <;> decide

theorem AfterTerm.noDigit {s : List Char} (h : AfterTerm s) : NoDigit s :=
  fun c hc => (h.head_ne c hc).1

theorem noDigit_keepText_append (k : Option (KeepSign × List Char)) {rest : List Char}
    (hrest : AfterTerm rest) : NoDigit (DiceForm.keepText k ++ rest) := by
  obtain _ | ⟨sign, kept⟩ := k
  · exact hrest.noDigit
  · cases sign <;> exact Scanner.Stops.cons (by decide) _

/-- What comes after a term does not begin with the sign of a keep mode. -/
theorem AfterTerm.ne_keep {rest tail : List Char} {sign : KeepSign} (h : AfterTerm rest) :
    rest ≠ sign.symbol :: tail := by
  rintro rfl
  obtain ⟨-, -, htop, hbottom⟩ := h.head_ne sign.symbol rfl
  cases sign
  · exact htop rfl
  · exact hbottom rfl

theorem afterTerm_links : ∀ links : List (Op × TermForm), AfterTerm (links.flatMap linkText)
  | [] => .nil
  | l :: _ => by
    rw [List.flatMap_cons, linkText, List.cons_append]
    exact .cons l.1 _

/-! ### One form for each text -/

theorem KeepSign.symbol_inj {sign sign' : KeepSign} (h : sign.symbol = sign'.symbol) :
    sign = sign' := by
  revert h
  cases sign <;> cases sign' <;> decide

theorem keepText_append_inj {k k' : Option (KeepSign × List Char)} {rest rest' : List Char}
    (hk : ∀ p ∈ k, IsRun p.2) (hk' : ∀ p ∈ k', IsRun p.2) (hrest : AfterTerm rest)
    (hrest' : AfterTerm rest')
    (heq : DiceForm.keepText k ++ rest = DiceForm.keepText k' ++ rest') : k = k' ∧ rest = rest' := by
  match k, k' with
  | none, none => exact ⟨rfl, heq⟩
  | none, some (sign, kept) => exact absurd heq hrest.ne_keep
  | some (sign, kept), none => exact absurd heq.symm hrest'.ne_keep
  | some (sign, kept), some (sign', kept') =>
    obtain ⟨hsign, heq⟩ := List.cons.inj heq
    obtain ⟨rfl, rfl⟩ := Scanner.run_append_inj (hk _ rfl).2 (hk' _ rfl).2 hrest.noDigit
      hrest'.noDigit heq
    exact ⟨by rw [KeepSign.symbol_inj hsign], rfl⟩

theorem DiceForm.text_append_inj {w w' : DiceForm} {rest rest' : List Char} (hw : w.Each IsRun)
    (hw' : w'.Each IsRun) (hrest : AfterTerm rest) (hrest' : AfterTerm rest')
    (heq : w.text ++ rest = w'.text ++ rest') : w = w' ∧ rest = rest' := by
  obtain ⟨count?, sides, keep?⟩ := w
  obtain ⟨count?', sides', keep?'⟩ := w'
  obtain ⟨hcount, hsides, hkeep⟩ := each_iff.mp hw
  obtain ⟨hcount', hsides', hkeep'⟩ := each_iff.mp hw'
  have hdigits : ∀ {o : Option (List Char)}, (∀ count ∈ o, IsRun count) →
      ∀ c ∈ o.getD [], c.isDigit = true := by
    rintro (_ | count) h
    · simp
    · exact (h count rfl).2
  simp only [text, List.append_assoc, List.cons_append] at heq
  obtain ⟨hcounts, heq⟩ := Scanner.run_append_inj (hdigits hcount) (hdigits hcount')
    (Scanner.Stops.cons (by decide) _) (Scanner.Stops.cons (by decide) _) heq
  obtain ⟨rfl, hkeeps⟩ := Scanner.run_append_inj hsides.2 hsides'.2
    (noDigit_keepText_append keep? hrest) (noDigit_keepText_append keep?' hrest')
    (List.cons.inj heq).2
  obtain ⟨rfl, rfl⟩ := keepText_append_inj hkeep hkeep' hrest hrest' hkeeps
  -- a number that is left out and a number without digits would look alike
  obtain rfl : count? = count?' := by
    match count?, count?' with
    | none, none => rfl
    | none, some count => exact absurd hcounts.symm (hcount' count rfl).1
    | some count, none => exact absurd hcounts (hcount count rfl).1
    | some count, some count' => exact congrArg some hcounts
  exact ⟨rfl, rfl⟩

/-- A group of dice is no number in front of what comes after a term. -/
theorem DiceForm.text_append_ne {w : DiceForm} {digits rest rest' : List Char} (hw : w.Each IsRun)
    (hdigits : IsRun digits) (hrest : AfterTerm rest) : digits ++ rest ≠ w.text ++ rest' := by
  intro heq
  have hcount := hw.forall_mem_count fun _ hrun => hrun.2
  rw [text, List.append_assoc] at heq
  obtain ⟨-, rfl⟩ := Scanner.run_append_inj hdigits.2 hcount hrest.noDigit
    (Scanner.Stops.cons (by decide) _) heq
  exact (hrest.head_ne 'd' rfl).2.1 rfl

theorem TermForm.text_append_inj {w w' : TermForm} {rest rest' : List Char}
    (hw : w.Each fun _ => IsRun) (hw' : w'.Each fun _ => IsRun) (hrest : AfterTerm rest)
    (hrest' : AfterTerm rest') (heq : w.text ++ rest = w'.text ++ rest') :
    w = w' ∧ rest = rest' := by
  match w, w' with
  | .number digits, .number digits' =>
    obtain ⟨rfl, rfl⟩ := Scanner.run_append_inj hw.2 hw'.2 hrest.noDigit hrest'.noDigit heq
    exact ⟨rfl, rfl⟩
  | .number digits, .dice d => exact absurd heq (DiceForm.text_append_ne hw' hw hrest)
  | .dice d, .number digits => exact absurd heq.symm (DiceForm.text_append_ne hw hw' hrest')
  | .dice d, .dice d' =>
    obtain ⟨rfl, rfl⟩ := DiceForm.text_append_inj hw hw' hrest hrest' heq
    exact ⟨rfl, rfl⟩

theorem ofSymbol?_symbol (op : Op) : Op.ofSymbol? op.symbol = some op := by
  cases op <;> rfl

theorem symbol_of_ofSymbol? {c : Char} {op : Op} (h : Op.ofSymbol? c = some op) :
    c = op.symbol := by
  unfold Op.ofSymbol? at h
  split at h <;> cases h <;> rfl

theorem symbol_inj {op op' : Op} (h : op.symbol = op'.symbol) : op = op' := by
  rw [← Option.some_inj, ← ofSymbol?_symbol op, h, ofSymbol?_symbol]

theorem links_inj : ∀ {links links' : List (Op × TermForm)},
    (∀ l ∈ links, l.2.Each fun _ => IsRun) → (∀ l ∈ links', l.2.Each fun _ => IsRun) →
    links.flatMap linkText = links'.flatMap linkText → links = links'
  | [], [], _, _, _ => rfl
  | [], (op, w) :: more, _, _, heq => by simp [linkText] at heq
  | (op, w) :: more, [], _, _, heq => by simp [linkText] at heq
  | (op, w) :: more, (op', w') :: more', h, h', heq => by
    obtain ⟨hw, hmore⟩ := List.forall_mem_cons.mp h
    obtain ⟨hw', hmore'⟩ := List.forall_mem_cons.mp h'
    simp only [List.flatMap_cons, linkText, List.cons_append, List.cons.injEq] at heq
    obtain ⟨hop, heq⟩ := heq
    obtain ⟨rfl, hlinks⟩ := TermForm.text_append_inj hw hw' (afterTerm_links more)
      (afterTerm_links more') heq
    rw [symbol_inj hop, links_inj hmore hmore' hlinks]

/-- Forms whose numbers are runs of digits have different texts. -/
theorem ExprForm.text_inj {w w' : ExprForm} (hw : w.Each fun _ => IsRun)
    (hw' : w'.Each fun _ => IsRun) (heq : w.text = w'.text) : w = w' := by
  obtain ⟨hfirst, hrest⟩ := List.forall_mem_cons.mp hw
  obtain ⟨hfirst', hrest'⟩ := List.forall_mem_cons.mp hw'
  obtain ⟨hsame, hlinks⟩ := TermForm.text_append_inj hfirst hfirst' (afterTerm_links w.rest)
    (afterTerm_links w'.rest) heq
  have hrests := links_inj (fun l hl => hrest l.2 (List.mem_map_of_mem hl))
    (fun l hl => hrest' l.2 (List.mem_map_of_mem hl)) hlinks
  cases w
  cases w'
  simp_all

end Notation

end DiceTables
