import DiceTables.Proofs.Arithmetic
import DiceTables.Proofs.Excerpts

/-!
Tables inside outcomes, read from the text that writes them: a label, the notation of a group of
dice, and items, each a number or a range of numbers and a text. They are set apart by single
spaces, and nothing else tells where one ends and the next begins. The dice are found because the
label has no notation of its own, and the items because no text of theirs has a digit in it; what
noise is dropped around a piece then is the space that set it apart. The main statement is that the
label, the dice and the items all come back, in their order.
-/

namespace DiceTables

open Text Scanner Notation

/-- Pieces of a line, each with a space before it. -/
def spaced (pieces : List (List Char)) : List Char := pieces.flatMap (' ' :: ·)

theorem stops_spaced {p : Char → Bool} (h : p ' ' = false) (pieces : List (List Char)) :
    Stops p (spaced pieces) := by
  cases pieces with
  | nil => exact .nil
  | cons piece more => exact .cons h _

/-! ### Texts that go on after what is read -/

namespace Text.Scanner

/-- A pattern reads a text with more after it as it reads the text by itself. -/
def ReadsBefore (a : Scanner (List Char)) (more : List Char) : Prop :=
  ∀ s, a (s ++ more) = (a s).map fun (taken, rest) => (taken, rest ++ more)

variable {p : Char → Bool} {more : List Char}

theorem readsBefore_run (h : Stops p more) : ReadsBefore (run p) more := by
  intro s
  obtain ⟨hs, htaken, hrest⟩ := run_eq_some.mp (rfl : run p s = some (s.takeWhile p, s.dropWhile p))
  refine run_eq_some.mpr ⟨?_, htaken, hrest.append h⟩
  rw [← List.append_assoc, ← hs]

theorem readsBefore_run1 (h : Stops p more) : ReadsBefore (run1 p) more := by
  intro s
  cases hread : run1 p s with
  | some found =>
    obtain ⟨taken, rest⟩ := found
    obtain ⟨hne, rfl, htaken, hrest⟩ := run1_eq_some.mp hread
    exact run1_eq_some.mpr ⟨hne, List.append_assoc _ _ _, htaken, hrest.append h⟩
  | none =>
    have hs : Stops p s := by
      cases s with
      | nil => exact .nil
      | cons c s =>
        refine .cons (Bool.eq_false_iff.mpr fun hc => ?_) s
        simp [run1, hc] at hread
    exact run1_eq_none (hs.append h)

theorem readsBefore_one (h : Stops p more) : ReadsBefore (one p) more := by
  intro s
  cases s with
  | nil => exact one_eq_none h
  | cons c s =>
    rw [List.cons_append, one, one]
    split <;> rfl

theorem readsBefore_sequence {patterns : List (Scanner (List Char))}
    (h : ∀ a ∈ patterns, ReadsBefore a more) : ReadsBefore (sequence patterns) more := by
  induction patterns with
  | nil =>
    intro s
    rfl
  | cons a patterns ih =>
    obtain ⟨ha, hpatterns⟩ := List.forall_mem_cons.mp h
    intro s
    rw [sequence, sequence, ha s]
    cases a s with
    | none => rfl
    | some found =>
      show (sequence patterns (found.2 ++ more)).bind _ = _
      rw [ih hpatterns found.2]
      cases hothers : sequence patterns found.2 <;> simp [hothers]

end Text.Scanner

/-! ### Dice within a text -/

theorem endsWord_spaced (pieces : List (List Char)) : endsWord (spaced pieces) = true := by
  cases pieces with
  | nil => rfl
  | cons piece more => exact (by decide +kernel : endsWord [' '] = true)

/-- A space ends whatever notation comes before it. -/
theorem readsBefore_wordDice (pieces : List (List Char)) :
    ReadsBefore wordDice (spaced pieces) := by
  have hdigit := stops_spaced (by decide +kernel : isDecimalDigit ' ' = false) pieces
  have hdie := stops_spaced (by decide : Line.isDieLetter ' ' = false) pieces
  have hkeep := stops_spaced (by decide : Line.isKeepSign ' ' = false) pieces
  have hends : ∀ s, endsWord (s ++ spaced pieces) = endsWord s := by
    intro s
    cases s with
    | nil => exact endsWord_spaced pieces
    | cons c s => rfl
  have hplain : ReadsBefore (sequence [run isDecimalDigit, one Line.isDieLetter,
      run1 isDecimalDigit]) (spaced pieces) :=
    readsBefore_sequence <| by
      simp [readsBefore_run hdigit, readsBefore_one hdie, readsBefore_run1 hdigit]
  have hmode : ReadsBefore (sequence [one Line.isKeepSign, run1 isDecimalDigit])
      (spaced pieces) :=
    readsBefore_sequence <| by simp [readsBefore_one hkeep, readsBefore_run1 hdigit]
  intro s
  rw [wordDice, wordDice, hplain s]
  cases hread : sequence [run isDecimalDigit, one Line.isDieLetter, run1 isDecimalDigit] s with
  | none => rfl
  | some found =>
    obtain ⟨plain, rest⟩ := found
    simp only [Option.map_some, Option.bind_eq_bind, Option.bind_some, hmode rest, hends]
    cases sequence [one Line.isKeepSign, run1 isDecimalDigit] rest with
    | none =>
      dsimp only [Option.map_none]
      split <;> rfl
    | some kept =>
      obtain ⟨keep, left⟩ := kept
      simp only [Option.map_some, hends]
      split
      · rfl
      · split <;> rfl

/-- The notation that is written for a group of dice is notation within a text. -/
theorem wordDice_text (d : Dice) : wordDice d.text.toList = some (d.text.toList, []) := by
  have hruns : d.form.Each IsDecimalRun :=
    fun digits hd => (d.proper_form digits hd).isRun.isDecimalRun
  obtain ⟨-, hsides, hk⟩ := DiceForm.each_iff.mp hruns
  have hcountDigits := hruns.forall_mem_count fun _ hrun => hrun.2
  have hkeepStops : Stops isDecimalDigit (DiceForm.keepText d.form.keep?) := by
    rcases d.form.keep? with _ | ⟨_ | _, kept⟩
    · exact .nil
    · exact .cons (by decide +kernel) _
    · exact .cons (by decide +kernel) _
  have hplain : sequence [run isDecimalDigit, one Line.isDieLetter, run1 isDecimalDigit]
      d.form.text = some (d.form.count?.getD [] ++ 'd' :: d.form.sides,
        DiceForm.keepText d.form.keep?) := by
    have hrun : run isDecimalDigit d.form.text = some (d.form.count?.getD [],
        'd' :: (d.form.sides ++ DiceForm.keepText d.form.keep?)) :=
      run_eq_some.mpr ⟨rfl, hcountDigits, .cons (by decide +kernel) _⟩
    simp [Scanner.sequence, hrun, Scanner.one, Line.isDieLetter, Line.run1_append hsides hkeepStops]
  rw [d.toList_text, wordDice, hplain]
  cases hkeep : d.form.keep? with
  | none => simp [DiceForm.text, hkeep, DiceForm.keepText, Scanner.sequence, Scanner.one, endsWord]
  | some k =>
    obtain ⟨sign, kept⟩ := k
    have hsign : Line.isKeepSign sign.symbol = true := by cases sign <;> decide
    have hkept := Line.run1_append (hk _ hkeep) Stops.nil
    rw [List.append_nil] at hkept
    simp [DiceForm.text, hkeep, DiceForm.keepText, Scanner.sequence, Scanner.one, hsign, hkept,
      endsWord]

theorem wordDice_text_append (d : Dice) (pieces : List (List Char)) :
    wordDice (d.text.toList ++ spaced pieces) = some (d.text.toList, spaced pieces) := by
  rw [readsBefore_wordDice pieces, wordDice_text]
  rfl

/-- A text with dice notation in it that counts as a word of its own. -/
def HasDice (s : List Char) : Prop := ∃ before rest, s = before ++ rest ∧
  endsWord (before.reverse.take 1) = true ∧ (wordDice rest).isSome = true

theorem hasDice_iff {s : List Char} : HasDice s ↔ ∃ i ∈ List.range (s.length + 1),
    endsWord ((s.take i).reverse.take 1) = true ∧ (wordDice (s.drop i)).isSome = true := by
  constructor
  · rintro ⟨before, rest, rfl, hbefore, hrest⟩
    refine ⟨before.length, List.mem_range.mpr ?_, by simpa using hbefore, by simpa using hrest⟩
    rw [List.length_append]
    omega
  · rintro ⟨i, -, hbefore, hrest⟩
    exact ⟨s.take i, s.drop i, (List.take_append_drop i s).symm, hbefore, hrest⟩

instance (s : List Char) : Decidable (HasDice s) := decidable_of_iff _ hasDice_iff.symm

/-- Without a digit there are no dice. -/
theorem not_hasDice {s : List Char} (h : ∀ c ∈ s, isDecimalDigit c = false) : ¬ HasDice s := by
  rintro ⟨before, rest, rfl, -, hsome⟩
  obtain ⟨found, hfound⟩ := Option.isSome_iff_exists.mp hsome
  obtain ⟨⟨plain, left⟩, hplain, -⟩ := Option.bind_eq_some_iff.mp hfound
  obtain ⟨count, s₁, _, hcount, h₁, rfl⟩ := sequence_cons_eq_some.mp hplain
  obtain ⟨letter, s₂, _, hletter, h₂, rfl⟩ := sequence_cons_eq_some.mp h₁
  obtain ⟨sides, s₃, _, hsides, -, rfl⟩ := sequence_cons_eq_some.mp h₂
  obtain ⟨hne, hs₂, hdigits, -⟩ := run1_eq_some.mp hsides
  obtain ⟨c, more, rfl⟩ := List.exists_cons_of_ne_nil hne
  have hrest := takes_run _ _ _ _ hcount
  rw [takes_one _ _ _ _ hletter, hs₂] at hrest
  have hc : isDecimalDigit c = false := h c (by simp [hrest])
  rw [hdigits c List.mem_cons_self] at hc
  cases hc

namespace Trigger

/-- Where a text has no dice, the search for a trigger goes on after it. -/
theorem findFrom?_append {s seen : List Char} (pieces : List (List Char))
    (h : ∀ before rest, s = before ++ rest →
      endsWord ((before.reverse ++ seen).take 1) = true → wordDice rest = none) :
    findFrom? seen (s ++ spaced pieces) = findFrom? (s.reverse ++ seen) (spaced pieces) := by
  induction s generalizing seen with
  | nil => rfl
  | cons c s ih =>
    -- dice that start here end before the first space, so they are dice of `c :: s` alone
    have hhere : (if endsWord (seen.take 1) = true then wordDice (c :: (s ++ spaced pieces))
        else none) = none := by
      split
      · next hword =>
        have hread := readsBefore_wordDice pieces (c :: s)
        rwa [h [] (c :: s) rfl hword] at hread
      · rfl
    have hnext : findFrom? (c :: seen) (s ++ spaced pieces) =
        findFrom? (s.reverse ++ c :: seen) (spaced pieces) :=
      ih fun before rest heq hword =>
        h (c :: before) rest (by rw [heq, List.cons_append]) (by simpa using hword)
    rw [List.cons_append, findFrom?, hhere]
    simpa using hnext

theorem find?_append {s : List Char} (h : ¬ HasDice s) (pieces : List (List Char)) :
    find? (s ++ spaced pieces) = findFrom? s.reverse (spaced pieces) := by
  have hskip : findFrom? [] (s ++ spaced pieces) = findFrom? (s.reverse ++ []) (spaced pieces) :=
    findFrom?_append pieces fun before rest heq hword =>
      Option.not_isSome_iff_eq_none.mp fun hsome =>
        h ⟨before, rest, heq, by simpa using hword, hsome⟩
  rwa [List.append_nil] at hskip

theorem find?_eq_none {s : List Char} (h : ¬ HasDice s) : find? s = none := by
  have hskip := find?_append h []
  rwa [spaced, List.flatMap_nil, List.append_nil] at hskip

/-- A label without dice is passed on the way to the dice after it. -/
theorem find?_label {label dice : List Char} {pieces : List (List Char)}
    (hlabel : ¬ HasDice label) (hletter : label.any isAlphanumeric = true)
    (hdice : wordDice (dice ++ spaced pieces) = some (dice, spaced pieces)) :
    find? (label ++ spaced (dice :: pieces)) = some ⟨label ++ [' '], dice, spaced pieces⟩ := by
  have hspace : wordDice (' ' :: (dice ++ spaced pieces)) = none := by
    have hblank : isDecimalDigit ' ' = false := by decide +kernel
    simp [wordDice, Scanner.sequence, run, Scanner.one, hblank, Line.isDieLetter]
  have hword : endsWord [' '] = true := by decide +kernel
  have hseen : (' ' :: label.reverse).any isAlphanumeric = true := by
    rw [List.any_cons, List.any_reverse, hletter, Bool.or_true]
  obtain ⟨c, more, hcons⟩ : ∃ c more, dice ++ spaced pieces = c :: more := by
    refine List.exists_cons_of_ne_nil fun hnil => ?_
    rw [hnil] at hdice
    cases hdice
  rw [find?_append hlabel]
  calc findFrom? label.reverse (' ' :: (dice ++ spaced pieces))
      = findFrom? (' ' :: label.reverse) (dice ++ spaced pieces) := by
        simp [findFrom?, hspace]
    _ = some ⟨label ++ [' '], dice, spaced pieces⟩ := by
        rw [hcons] at hdice ⊢
        simp only [findFrom?, List.take_succ_cons, List.take_zero, hword, if_true, hdice, hseen,
          List.reverse_cons, List.reverse_reverse]

end Trigger

/-! ### Items -/

/-- An outcome that can stand in a line of items: its range can be read, and its text is neither
empty nor has a digit in it. -/
structure Entry.IsItem (x : Entry) : Prop where
  fromNumerals : x.FromNumerals
  free : IsFree x.text.toList
  solid : x.text.toList ≠ []
  noDigit : ∀ c ∈ x.text.toList, isDecimalDigit c = false

theorem Entry.isItem_iff {x : Entry} : x.IsItem ↔ (0 ≤ x.lo ∧ x.hi ≤ Whole.greatest) ∧
    IsFree x.text.toList ∧ x.text.toList ≠ [] ∧
      x.text.toList.all (!isDecimalDigit ·) = true := by
  simp only [List.all_eq_true, Bool.not_eq_true']
  constructor
  · intro h
    exact ⟨h.fromNumerals, h.free, h.solid, h.noDigit⟩
  · rintro ⟨hnumerals, hfree, hsolid, hdigit⟩
    exact ⟨hnumerals, hfree, hsolid, hdigit⟩

instance (x : Entry) : Decidable x.IsItem := decidable_of_iff _ Entry.isItem_iff.symm

/-- The ways to write an item. -/
inductive Entry.WrittenAs (x : Entry) : List Char → Prop
  /-- With its number alone, if there is just one. -/
  | single (h : x.lo = x.hi) :
    x.WrittenAs (Nat.toDigits 10 x.lo.toNat ++ ' ' :: x.text.toList)
  /-- With both ends of its range. -/
  | range : x.WrittenAs
    (Nat.toDigits 10 x.lo.toNat ++ '-' :: (Nat.toDigits 10 x.hi.toNat ++ ' ' :: x.text.toList))

theorem Entry.WrittenAs.length_lt {x : Entry} {piece : List Char} (h : x.WrittenAs piece) :
    x.text.toList.length < piece.length := by
  cases h with
  | single _ =>
    rw [List.length_append, List.length_cons]
    omega
  | range =>
    rw [List.length_append, List.length_cons, List.length_append, List.length_cons]
    omega

/-- Noise that follows a free text is all that is dropped. -/
theorem IsFree.strip_append {t dropped : List Char} (h : IsFree t)
    (hdropped : ∀ c ∈ dropped, isNoise c = true) : strip (t ++ dropped) = t := by
  rw [strip, trimWhile_append_of_forall t hdropped, trimWhile_of_stops h.stops h.stops_reverse]

namespace Marker

/-- A marker that opens an item: it stands for the range of the item, and the text comes after it. -/
structure Opens (m : Marker) (x : Entry) (piece rest : List Char) : Prop where
  number_eq : Entry.number? m.number = some x.lo
  last_eq : (m.last?.bind Entry.number?).getD x.lo = x.hi
  fromNumber_eq : m.fromNumber = piece ++ rest
  after_eq : m.after = x.text.toList ++ rest

theorem at?_eq_none {s : List Char} (h : Stops isDecimalDigit s) : at? s = none := by
  rw [at?, run1_eq_none h]
  rfl

section

variable {first last after : List Char}

/-- A space ends a marker, and a text without noise in front starts right after it. -/
theorem ending_space (h : Stops isNoise after) : ending (' ' :: after) = some ([' '], after) := by
  have hmarks : run isMark (' ' :: after) = some ([], ' ' :: after) :=
    run_eq_some.mpr ⟨rfl, by simp, .cons (by decide) _⟩
  have hblank : run1 isBlank (' ' :: after) = some ([' '], after) :=
    run1_eq_some.mpr ⟨by simp, rfl, List.forall_mem_singleton.mpr rfl,
      h.mono fun _ => isNoise_of_isBlank⟩
  simp [ending, Scanner.sequence, hmarks, hblank]

theorem at?_single (hfirst : IsDecimalRun first) (h : Stops isNoise after) :
    at? (first ++ ' ' :: after) = some ⟨first, none, first ++ ' ' :: after, after⟩ := by
  have hdigit : Stops isDecimalDigit (' ' :: after) := .cons (by decide +kernel) _
  have hrange : Line.rangeEnd (' ' :: after) = none := by
    have hblank : run isBlank (' ' :: after) = some ([' '], after) :=
      run_eq_some.mpr ⟨rfl, List.forall_mem_singleton.mpr rfl, h.mono fun _ => isNoise_of_isBlank⟩
    have hdash : run1 Line.isDash after = none :=
      run1_eq_none (h.mono fun _ => Line.isNoise_of_isDash)
    simp [Line.rangeEnd, Scanner.sequence, hblank, hdash]
  simp [at?, Line.run1_append hfirst hdigit, hrange, ending_space h]

theorem at?_range (hfirst : IsDecimalRun first) (hlast : IsDecimalRun last)
    (h : Stops isNoise after) : at? (first ++ '-' :: (last ++ ' ' :: after)) =
      some ⟨first, some last, first ++ '-' :: (last ++ ' ' :: after), after⟩ := by
  have hdigit : Stops isDecimalDigit (' ' :: after) := .cons (by decide +kernel) _
  have hdash : Stops isDecimalDigit ('-' :: (last ++ ' ' :: after)) := .cons (by decide +kernel) _
  simp [at?, Line.run1_append hfirst hdash, Line.rangeEnd_dash hlast hdigit, ending_space h]

end

theorem exists_opens {x : Entry} {piece : List Char} (hx : x.IsItem)
    (h : x.WrittenAs piece) (rest : List Char) :
    ∃ m, at? (piece ++ rest) = some m ∧ m.Opens x piece rest := by
  have hrun : ∀ n : Int, IsDecimalRun (Nat.toDigits 10 n.toNat) :=
    fun n => (proper_toDigits (Nat.lt_succ_self _)).isRun.isDecimalRun
  have hlo := Entry.number?_toDigits hx.fromNumerals.1 (x.lo_le_hi.trans hx.fromNumerals.2)
  have hhi := Entry.number?_toDigits (hx.fromNumerals.1.trans x.lo_le_hi) hx.fromNumerals.2
  have hafter := hx.free.stops.append_of_ne_nil hx.solid rest
  cases h with
  | single heq =>
    have hread := at?_single (hrun x.lo) hafter
    have hpiece : Nat.toDigits 10 x.lo.toNat ++ ' ' :: (x.text.toList ++ rest) =
        (Nat.toDigits 10 x.lo.toNat ++ ' ' :: x.text.toList) ++ rest := by simp
    rw [hpiece] at hread
    exact ⟨_, hread, hlo, heq, rfl, rfl⟩
  | range =>
    have hread := at?_range (hrun x.lo) (hrun x.hi) hafter
    have hpiece : Nat.toDigits 10 x.lo.toNat ++ '-' :: (Nat.toDigits 10 x.hi.toNat ++
        ' ' :: (x.text.toList ++ rest)) = (Nat.toDigits 10 x.lo.toNat ++ '-' ::
          (Nat.toDigits 10 x.hi.toNat ++ ' ' :: x.text.toList)) ++ rest := by simp
    rw [hpiece] at hread
    exact ⟨_, hread, hlo, congrArg (·.getD x.lo) hhi, rfl, rfl⟩

/-- A text without digits has no marker in it, so the search goes on after it. -/
theorem findFrom_append {s more : List Char} (hs : ∀ c ∈ s, isDecimalDigit c = false)
    (hmore : Stops isDecimalDigit more) : findFrom (s ++ more) = findFrom more := by
  induction s with
  | nil => rfl
  | cons c s ih =>
    obtain ⟨-, hs⟩ := List.forall_mem_cons.mp hs
    have hnone : at? (s ++ more) = none := by
      refine at?_eq_none (Stops.append (fun d hd => hs d ?_) hmore)
      exact List.mem_of_mem_head? hd
    rw [List.cons_append, findFrom, hnone]
    split
    · exact ih hs
    · exact ih hs

/-- The markers of a line of items: each opens its item. -/
theorem findFrom_spaced {x : Entry} {piece : List Char} (hx : x.IsItem) (h : x.WrittenAs piece)
    (pieces : List (List Char)) : ∃ m, m.Opens x piece (spaced pieces) ∧
      findFrom (spaced (piece :: pieces)) = m :: findFrom (spaced pieces) := by
  obtain ⟨m, hread, hm⟩ := exists_opens hx h (spaced pieces)
  have hshorter : m.after.length < (piece ++ spaced pieces).length := by
    rw [hm.after_eq, List.length_append, List.length_append]
    exact Nat.add_lt_add_right h.length_lt _
  have hspace : isWord ' ' = false := by decide +kernel
  refine ⟨m, hm, ?_⟩
  show findFrom (' ' :: (piece ++ spaced pieces)) = _
  rw [findFrom, hread, hspace]
  simp only [hshorter, if_true, Bool.false_eq_true, if_false]
  rw [hm.after_eq, findFrom_append hx.noDigit (stops_spaced (by decide +kernel) pieces)]

/-- The text of an item is cut off before the space in front of the next one. -/
theorem body_eq {m : Marker} {x : Entry} {items : List Entry} {piece : List Char}
    {pieces : List (List Char)} (hm : m.Opens x piece (spaced pieces))
    (hitems : ∀ y ∈ items, y.IsItem) (hpieces : List.Forall₂ Entry.WrittenAs items pieces) :
    ∃ dropped, m.body (findFrom (spaced pieces)) = x.text.toList ++ dropped ∧
      ∀ c ∈ dropped, isNoise c = true := by
  cases hpieces with
  | nil =>
    refine ⟨[], ?_, List.forall_mem_nil _⟩
    rw [spaced, List.flatMap_nil, findFrom, body, hm.after_eq]
    rfl
  | @cons y piece' items pieces hy hmore =>
    obtain ⟨next, hnext, hfind⟩ := findFrom_spaced (hitems y List.mem_cons_self) hy pieces
    refine ⟨[' '], ?_, List.forall_mem_singleton.mpr rfl⟩
    have hlength : m.after.length - next.fromNumber.length = x.text.toList.length + 1 := by
      rw [hm.after_eq, hnext.fromNumber_eq, spaced, List.flatMap_cons, List.length_append,
        List.cons_append, List.length_cons, ← spaced]
      omega
    have hsplit : m.after = (x.text.toList ++ [' ']) ++ (piece' ++ spaced pieces) := by
      rw [hm.after_eq]
      simp [spaced]
    rw [hfind, body, hlength, hsplit]
    exact List.take_left' (by simp)

end Marker

/-! ### Tables -/

/-- A group of dice by itself always has a range. -/
theorem Expr.exists_domain_dice (d : Dice) : ∃ range, domain ⟨.dice d, []⟩ = .ok range := by
  have hleast : d.least < 65536 := d.kept_lt
  have hgreatest : d.greatest < 4294967296 := d.greatest_lt
  have hfits : ∀ high, Whole.Fits (0 + (Term.dice d).bound high) := by
    intro high
    cases high with
    | false => simp only [Term.bound, Whole.Fits, Whole.least, Whole.greatest]; omega
    | true => simp only [Term.bound, Whole.Fits, Whole.least, Whole.greatest]; omega
  have hbound : ∀ high, bound ⟨.dice d, []⟩ high = .ok (0 + (Term.dice d).bound high) :=
    fun high => Op.inRange_eq_ok.mpr ⟨rfl, hfits high⟩
  exact ⟨_, by rw [domain, least, greatest, hbound, hbound]; rfl⟩

namespace Table

/-- A line of items is read as the items that it was written for. -/
theorem inlineEntries_spaced {items : List Entry} {pieces : List (List Char)}
    (hitems : ∀ x ∈ items, x.IsItem) (hpieces : List.Forall₂ Entry.WrittenAs items pieces) :
    inlineEntries (Marker.findFrom (spaced pieces)) = items := by
  induction hpieces with
  | nil => rw [spaced, List.flatMap_nil, Marker.findFrom, inlineEntries]
  | @cons x piece items pieces hx hpieces ih =>
    obtain ⟨hitem, hitems⟩ := List.forall_mem_cons.mp hitems
    obtain ⟨m, hm, hfind⟩ := Marker.findFrom_spaced hitem hx pieces
    obtain ⟨dropped, hbody, hdropped⟩ := Marker.body_eq hm hitems hpieces
    -- the space that is cut off with the text opens no table and is dropped again
    have hplain : Trigger.find? (m.body (Marker.findFrom (spaced pieces))) = none := by
      rw [hbody]
      refine Trigger.find?_eq_none (not_hasDice (List.forall_mem_append.mpr ⟨hitem.noDigit, ?_⟩))
      exact fun c hc => noise_apart_digit c (hdropped c hc)
    have hstrip : strip (m.body (Marker.findFrom (spaced pieces))) = x.text.toList := by
      rw [hbody, hitem.free.strip_append hdropped]
    rw [hfind, inlineEntries, hm.number_eq]
    simp only [hm.last_eq, hplain, hstrip, x.between_self, ih hitems]

/-- Dice and at least two items after them make a table. -/
theorem exists_inline? {limits : Limits} {d : Dice} {items : List Entry}
    {pieces : List (List Char)} (depth : Nat) (hterms : 1 ≤ limits.maxTerms)
    (hd : (Term.dice d).Buildable limits) (hitems : ∀ x ∈ items, x.IsItem)
    (htwo : 2 ≤ items.length) (hpieces : List.Forall₂ Entry.WrittenAs items pieces) :
    ∃ inner, inline? (d.text.toList ++ spaced pieces) depth limits = some inner ∧
      inner.expr = ⟨.dice d, []⟩ ∧ inner.entries = items := by
  have hdice := wordDice_text_append d pieces
  have hnotation : Expr.ofNotation d.text.toList limits = .ok ⟨.dice d, []⟩ := by
    have he : Expr.Buildable limits ⟨.dice d, []⟩ := ⟨List.forall_mem_singleton.mpr hd, hterms⟩
    simpa [Expr.toList_text, Term.text] using he.ofNotation_text
  have hentries : inlineEntries (Marker.findAll (spaced pieces)) = items := by
    have hnone := Marker.at?_eq_none (stops_spaced (by decide +kernel) pieces)
    rw [Marker.findAll, hnone, inlineEntries_spaced hitems hpieces]
  have hne : items ≠ [] := List.ne_nil_of_length_pos (by omega)
  obtain ⟨range, hdomain⟩ := Expr.exists_domain_dice d
  obtain ⟨inner, hinner⟩ : ∃ inner, ofParts [] ⟨.dice d, []⟩ items depth limits = .ok inner :=
    exists_ofParts [] depth hdomain hne
  obtain ⟨-, hexpr, houtcomes, -⟩ := ofParts_eq_ok hinner
  refine ⟨inner, ?_, hexpr, houtcomes⟩
  have hlong : ¬ items.length < 2 := Nat.not_lt.mpr htwo
  simp only [inline?, hdice, hnotation, Option.bind_eq_bind, Option.bind_some, Except.toOption,
    hentries, hlong, if_false, hinner]

end Table

/-- An outcome that is written as a label, a group of dice and at least two items is shown as its
label, and the table inside it rolls the dice and has the items, in their order. -/
theorem inline_text_reads_back {t : Table} {e : Entry} {label : String} {d : Dice}
    {items : List Entry} {pieces : List (List Char)} (houter : t.depth = 0)
    (hdepth : 1 ≤ t.limits.maxDepth) (hterms : 1 ≤ t.limits.maxTerms)
    (hd : (Term.dice d).Buildable t.limits) (hlabel : IsFree label.toList)
    (hletter : label.toList.any isAlphanumeric = true) (hplain : ¬ HasDice label.toList)
    (hitems : ∀ x ∈ items, x.IsItem) (htwo : 2 ≤ items.length)
    (hpieces : List.Forall₂ Entry.WrittenAs items pieces)
    (htext : e.text.toList = label.toList ++ spaced (d.text.toList :: pieces)) :
    t.label e = label ∧
      ∃ inner, t.subtable? e = some inner ∧ inner.expr = ⟨.dice d, []⟩ ∧ inner.entries = items := by
  have htrigger : t.trigger? e =
      some ⟨label.toList ++ [' '], d.text.toList, spaced pieces⟩ := by
    rw [Table.trigger?, if_pos (by omega), htext]
    exact Trigger.find?_label hplain hletter (wordDice_text_append d pieces)
  obtain ⟨inner, hinline, hexpr, hentries⟩ :=
    Table.exists_inline? (t.depth + 1) hterms hd hitems htwo hpieces
  have hsub : t.subtable? e = some inner := by
    rw [Table.subtable?, htrigger]
    exact hinline
  refine ⟨?_, inner, hsub, hexpr, hentries⟩
  rw [Table.label, htrigger, hsub]
  show String.ofList (strip (label.toList ++ [' '])) = label
  rw [hlabel.strip_append (List.forall_mem_singleton.mpr rfl), String.ofList_toList]

/-- A label with dice that go on as a word, a range of one number, a text with brackets in it and the
greatest number there is. -/
theorem blade_text_reads_back :
    let d : Dice := { count := 4, sides := 6, keep := .bottom 3, one_le_count := by decide,
                      count_lt := by decide, two_le_sides := by decide, sides_lt := by decide,
                      one_le_kept := by decide, kept_le_count := by decide }
    let items : List Entry := [⟨1, 1, "ice (blue) storm", by decide⟩, ⟨2, 2, "v", by decide⟩,
      ⟨0, Whole.greatest, "fire", by decide⟩]
    let e : Entry := ⟨2, 2, "A d6s blade 4d6v3 1-1 ice (blue) storm 2 v 0-9223372036854775807 fire",
      by decide⟩
    ∃ t, Table.build "d2 Loot".toList ["1. Nothing".toList, ("2. " ++ e.text).toList] {} = .ok t ∧
      e ∈ t.entries ∧ t.label e = "A d6s blade" ∧
      ∃ inner, t.subtable? e = some inner ∧ inner.expr = ⟨.dice d, []⟩ ∧ inner.entries = items := by
  intro d items e
  have hfacts : (Table.build "d2 Loot".toList
      ["1. Nothing".toList, ("2. " ++ e.text).toList] {}).toOption.any
        (fun t => e ∈ t.entries) = true := by decide +kernel
  obtain ⟨t, hbuilt, hmem⟩ := (Option.any_eq_true _ _).mp hfacts
  have hbuilt := toOption_eq_some.mp hbuilt
  obtain ⟨-, -, -, -, -, hdepth, hlimits⟩ := Table.build_eq_ok hbuilt
  have hitems : ∀ x ∈ items, x.IsItem := by decide +kernel
  have hdice : (Term.dice d).Buildable t.limits := by
    have hbuild : (d.request.build {}).toOption = some d := by decide +kernel
    rw [hlimits]
    exact ⟨d.request, toOption_eq_some.mp hbuild⟩
  have hone : 1 ≤ t.limits.maxDepth ∧ 1 ≤ t.limits.maxTerms := by
    rw [hlimits]
    decide
  refine ⟨t, hbuilt, of_decide_eq_true hmem, ?_⟩
  exact inline_text_reads_back hdepth hone.1 hone.2 hdice (by decide +kernel) (by decide +kernel)
    (by decide +kernel) hitems (by decide) (.cons .range (.cons (.single rfl) (.cons .range .nil)))
    (by decide +kernel)

end DiceTables
