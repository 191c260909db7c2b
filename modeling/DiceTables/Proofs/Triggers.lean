import DiceTables.Proofs.Excerpts

/-!
Dice within an outcome, found where they stand. A match is a group of dice between two word
boundaries, the longest one that starts where it starts. Matches do not overlap, so going on behind a
match misses none. What comes before a match has a say in nothing but the boundary in front of it, and
the beginning of a text is a boundary in front of dice as well: so the text from a trigger on begins
with the same match. In front of a table inside an outcome there is a letter or a digit, and a label
that keeps it.
-/

namespace DiceTables

open Text Scanner Notation

/-! ### The pattern -/

/-- A group of dice that keeps all its rolls: how many there are, a letter, and their sides. -/
def IsPlainGroup (t : List Char) : Prop := ∃ count letter sides, t = count ++ letter :: sides ∧
  (∀ c ∈ count, isDecimalDigit c = true) ∧ Line.isDieLetter letter = true ∧ IsDecimalRun sides

/-- A sign and how many rolls are kept. -/
def IsKeepMode (t : List Char) : Prop := ∃ sign kept, t = sign :: kept ∧
  Line.isKeepSign sign = true ∧ IsDecimalRun kept

/-- A group of dice, with a keep mode or without. -/
def IsGroup (t : List Char) : Prop :=
  IsPlainGroup t ∨ ∃ plain keep, t = plain ++ keep ∧ IsPlainGroup plain ∧ IsKeepMode keep

/-- Whether there is a word character on just one side. -/
def isBoundary (before after : List Char) : Bool := endsWord before.reverse != endsWord after

namespace Trigger

/-- A group of dice within a text, between word boundaries. -/
structure Occurs (s : List Char) (m : Trigger) : Prop where
  cut : s = m.before ++ m.tail
  group : IsGroup m.dice
  opens : isBoundary m.before m.tail = true
  closes : isBoundary (m.before ++ m.dice) m.after = true

/-- A match within a text: the longest group of dice that starts where it starts. -/
structure Matches (s : List Char) (m : Trigger) : Prop extends Occurs s m where
  longest : ∀ m', Occurs s m' → m'.before = m.before → m'.dice.length ≤ m.dice.length

/-- The first of the matches that a condition on the text before them lets through. -/
structure IsFirst (allowed : List Char → Prop) (s : List Char) (m : Trigger) : Prop
    extends Matches s m where
  allowed_before : allowed m.before
  least : ∀ m', Occurs s m' → allowed m'.before → m.before.length ≤ m'.before.length

end Trigger

/-! ### Words -/

theorem isWord_of_isDecimalDigit {c : Char} (h : isDecimalDigit c = true) : isWord c = true := by
  simp only [isDecimalDigit, Bool.and_eq_true] at h
  simp [isWord, h.1, h.2]

theorem isWord_of_isDieLetter {c : Char} (h : Line.isDieLetter c = true) : isWord c = true := by
  simp only [Line.isDieLetter, Bool.or_eq_true, decide_eq_true_eq] at h
  obtain rfl | rfl := h <;> decide +kernel

theorem stops_of_endsWord {s : List Char} (h : endsWord s = true) : Stops isDecimalDigit s := by
  cases s with
  | nil => exact .nil
  | cons c s =>
    refine .cons (Bool.eq_false_iff.mpr fun hdigit => ?_) s
    rw [endsWord, isWord_of_isDecimalDigit hdigit] at h
    cases h

theorem endsWord_take_one (s : List Char) : endsWord (s.take 1) = endsWord s := by
  cases s <;> rfl

theorem endsWord_append {s : List Char} (h : s ≠ []) (rest : List Char) :
    endsWord (s ++ rest) = endsWord s := by
  cases s with
  | nil => exact absurd rfl h
  | cons c s => rfl

/-- A group of dice starts with a word character. -/
theorem IsPlainGroup.endsWord_append {t : List Char} (h : IsPlainGroup t) (rest : List Char) :
    endsWord (t ++ rest) = false := by
  obtain ⟨count, letter, sides, rfl, hcount, hletter, -⟩ := h
  cases count with
  | nil => simp [endsWord, isWord_of_isDieLetter hletter]
  | cons c count => simp [endsWord, isWord_of_isDecimalDigit (hcount c List.mem_cons_self)]

theorem IsGroup.endsWord_append {t : List Char} (h : IsGroup t) (rest : List Char) :
    endsWord (t ++ rest) = false := by
  rcases h with h | ⟨plain, keep, rfl, h, -⟩
  · exact h.endsWord_append rest
  · rw [List.append_assoc]
    exact h.endsWord_append (keep ++ rest)

/-- What ends with a run of digits ends with a word character. -/
theorem endsWord_reverse_of_run {front digits : List Char} (h : IsDecimalRun digits) :
    endsWord (front ++ digits).reverse = false := by
  obtain ⟨c, more, hmore⟩ := List.exists_cons_of_ne_nil (List.reverse_ne_nil_iff.mpr h.1)
  have hc : isDecimalDigit c = true :=
    h.2 c (List.mem_reverse.mp (by rw [hmore]; exact List.mem_cons_self))
  rw [List.reverse_append, hmore, List.cons_append, endsWord, isWord_of_isDecimalDigit hc]
  rfl

/-- A group of dice ends with a run of digits. -/
theorem IsGroup.exists_run {t : List Char} (h : IsGroup t) :
    ∃ front digits, t = front ++ digits ∧ IsDecimalRun digits := by
  rcases h with ⟨count, letter, sides, rfl, -, -, hsides⟩ | ⟨plain, _, rfl, -, sign, kept, rfl, -, hkept⟩
  · exact ⟨count ++ [letter], sides, by simp, hsides⟩
  · exact ⟨plain ++ [sign], kept, by simp, hkept⟩

theorem IsGroup.endsWord_reverse {t : List Char} (h : IsGroup t) (front : List Char) :
    endsWord (front ++ t).reverse = false := by
  obtain ⟨start, digits, rfl, hdigits⟩ := h.exists_run
  rw [← List.append_assoc]
  exact endsWord_reverse_of_run hdigits

theorem isBoundary_before {t : List Char} (h : IsGroup t) (before rest : List Char) :
    isBoundary before (t ++ rest) = endsWord before.reverse := by
  rw [isBoundary, h.endsWord_append rest, Bool.bne_false]

theorem isBoundary_after {t : List Char} (h : IsGroup t) (before rest : List Char) :
    isBoundary (before ++ t) rest = endsWord rest := by
  rw [isBoundary, h.endsWord_reverse before, Bool.false_bne]

/-! ### Reading a group -/

section

variable {s plain keep rest dice after : List Char}

/-- The pattern for a group that keeps all its rolls. -/
def plainGroup : Scanner (List Char) :=
  sequence [run isDecimalDigit, one Line.isDieLetter, run1 isDecimalDigit]

/-- The pattern for a keep mode. -/
def keepMode : Scanner (List Char) := sequence [one Line.isKeepSign, run1 isDecimalDigit]

theorem plainGroup_eq_some : plainGroup s = some (plain, rest) ↔
    s = plain ++ rest ∧ IsPlainGroup plain ∧ Stops isDecimalDigit rest := by
  constructor
  · intro h
    obtain ⟨count, s₁, _, hcount, h₁, rfl⟩ := sequence_cons_eq_some.mp h
    obtain ⟨_, s₂, _, hletter, h₂, rfl⟩ := sequence_cons_eq_some.mp h₁
    obtain ⟨sides, s₃, _, hsides, h₃, rfl⟩ := sequence_cons_eq_some.mp h₂
    obtain ⟨rfl, rfl⟩ := sequence_nil_eq_some.mp h₃
    obtain ⟨rfl, hdigits, -⟩ := run_eq_some.mp hcount
    obtain ⟨letter, hdie, rfl, rfl⟩ := one_eq_some.mp hletter
    obtain ⟨hne, rfl, hdigits', hrest⟩ := run1_eq_some.mp hsides
    exact ⟨by simp, ⟨count, letter, sides, by simp, hdigits, hdie, hne, hdigits'⟩, hrest⟩
  · rintro ⟨rfl, ⟨count, letter, sides, rfl, hcount, hletter, hne, hsides⟩, hrest⟩
    have hdigit : isDecimalDigit letter = false := (Line.of_isDieLetter hletter).2.2.1
    refine sequence_cons_eq_some.mpr ⟨count, letter :: (sides ++ rest), letter :: sides,
      run_eq_some.mpr ⟨by simp, hcount, .cons hdigit _⟩, ?_, rfl⟩
    refine sequence_cons_eq_some.mpr ⟨[letter], sides ++ rest, sides,
      one_eq_some.mpr ⟨letter, hletter, rfl, rfl⟩, ?_, rfl⟩
    exact sequence_cons_eq_some.mpr ⟨sides, rest, [],
      run1_eq_some.mpr ⟨hne, rfl, hsides, hrest⟩, rfl, by simp⟩

theorem keepMode_eq_some : keepMode s = some (keep, rest) ↔
    s = keep ++ rest ∧ IsKeepMode keep ∧ Stops isDecimalDigit rest := by
  constructor
  · intro h
    obtain ⟨_, s₁, kept, hsign, hkept, rfl⟩ := sequence_pair_eq_some.mp h
    obtain ⟨sign, hkeepSign, rfl, rfl⟩ := one_eq_some.mp hsign
    obtain ⟨hne, rfl, hdigits, hrest⟩ := run1_eq_some.mp hkept
    exact ⟨rfl, ⟨sign, kept, rfl, hkeepSign, hne, hdigits⟩, hrest⟩
  · rintro ⟨rfl, ⟨sign, kept, rfl, hsign, hne, hkept⟩, hrest⟩
    exact sequence_pair_eq_some.mpr ⟨[sign], kept ++ rest, kept,
      one_eq_some.mpr ⟨sign, hsign, rfl, rfl⟩, run1_eq_some.mpr ⟨hne, rfl, hkept, hrest⟩, rfl⟩

/-- Dice are read with their keep mode if a word ends after it, and else without it if one ends there. -/
theorem wordDice_eq_some : wordDice s = some (dice, after) ↔ ∃ plain rest,
    plainGroup s = some (plain, rest) ∧
      ((∃ keep, keepMode rest = some (keep, after) ∧ endsWord after = true ∧ dice = plain ++ keep) ∨
        ((∀ keep left, keepMode rest = some (keep, left) → endsWord left = false) ∧
          endsWord rest = true ∧ dice = plain ∧ after = rest)) := by
  show (plainGroup s).bind _ = _ ↔ _
  cases plainGroup s with
  | none => simp
  | some found =>
    obtain ⟨plain, rest⟩ := found
    have hkeep : sequence [one Line.isKeepSign, run1 isDecimalDigit] rest = keepMode rest := rfl
    cases hkept : keepMode rest with
    | none =>
      simp only [Option.bind_some, hkeep.trans hkept, Option.some_inj, Prod.mk.injEq]
      grind
    | some kept =>
      obtain ⟨keep, left⟩ := kept
      simp only [Option.bind_some, hkeep.trans hkept, Option.some_inj, Prod.mk.injEq]
      grind

/-- A group of dice that a word ends with is what is read of it, with a keep mode or without. -/
theorem exists_scan (hgroup : IsGroup dice) (hends : endsWord after = true) : ∃ plain rest,
    plainGroup (dice ++ after) = some (plain, rest) ∧
      ((∃ keep, keepMode rest = some (keep, after) ∧ dice = plain ++ keep) ∨
        dice = plain ∧ after = rest) := by
  have hstops := stops_of_endsWord hends
  rcases hgroup with hplain | ⟨plain, keep, rfl, hplain, hkeep⟩
  · exact ⟨dice, after, plainGroup_eq_some.mpr ⟨rfl, hplain, hstops⟩, .inr ⟨rfl, rfl⟩⟩
  · obtain ⟨sign, kept, rfl, hsign, -⟩ := id hkeep
    have hsignDigit : isDecimalDigit sign = false := (Line.of_isKeepSign hsign).2.1
    refine ⟨plain, sign :: kept ++ after, plainGroup_eq_some.mpr ⟨?_, hplain, .cons hsignDigit _⟩,
      .inl ⟨sign :: kept, keepMode_eq_some.mpr ⟨rfl, hkeep, hstops⟩, rfl⟩⟩
    rw [List.append_assoc]

/-- What is read is the longest group of dice at the front of the text that a word ends with. -/
theorem longest_of_wordDice (h : wordDice s = some (dice, after)) :
    s = dice ++ after ∧ IsGroup dice ∧ endsWord after = true ∧
      ∀ dice' after', s = dice' ++ after' → IsGroup dice' → endsWord after' = true →
        dice'.length ≤ dice.length := by
  obtain ⟨plain, rest, hplain, hread⟩ := wordDice_eq_some.mp h
  obtain ⟨-, hplainGroup, -⟩ := plainGroup_eq_some.mp hplain
  -- every other reading starts with the same group
  have hother : ∀ dice' after', s = dice' ++ after' → IsGroup dice' → endsWord after' = true →
      (∃ keep, keepMode rest = some (keep, after') ∧ dice' = plain ++ keep) ∨ dice' = plain := by
    rintro dice' after' rfl hgroup hends
    obtain ⟨plain', rest', hplain', hdice'⟩ := exists_scan hgroup hends
    obtain ⟨rfl, rfl⟩ := Prod.mk.inj (Option.some.inj (hplain.symm.trans hplain'))
    exact hdice'.imp_right And.left
  refine ⟨takes_wordDice _ _ _ h, ?_⟩
  rcases hread with ⟨keep, hkeep, hends, rfl⟩ | ⟨hnone, hends, rfl, rfl⟩
  · obtain ⟨-, hkeepMode, -⟩ := keepMode_eq_some.mp hkeep
    refine ⟨.inr ⟨plain, keep, rfl, hplainGroup, hkeepMode⟩, hends, ?_⟩
    intro dice' after' hs hgroup hends'
    rcases hother dice' after' hs hgroup hends' with ⟨keep', hkeep', rfl⟩ | rfl
    · obtain ⟨rfl, -⟩ := Prod.mk.inj (Option.some.inj (hkeep.symm.trans hkeep'))
      exact le_rfl
    · rw [List.length_append]
      omega
  · refine ⟨.inl hplainGroup, hends, fun dice' after' hs hgroup hends' => ?_⟩
    rcases hother dice' after' hs hgroup hends' with ⟨keep', hkeep', rfl⟩ | rfl
    · rw [hnone keep' after' hkeep'] at hends'
      cases hends'
    · exact le_rfl

theorem exists_wordDice (hgroup : IsGroup dice) (hends : endsWord after = true) :
    ∃ dice' after', wordDice (dice ++ after) = some (dice', after') := by
  obtain ⟨plain, rest, hplain, hread⟩ := exists_scan hgroup hends
  by_cases hkept : ∃ keep left, keepMode rest = some (keep, left) ∧ endsWord left = true
  · obtain ⟨keep, left, hkeep, hleft⟩ := hkept
    have hread := wordDice_eq_some.mpr ⟨plain, rest, hplain, .inl ⟨keep, hkeep, hleft, rfl⟩⟩
    exact ⟨plain ++ keep, left, hread⟩
  · rcases hread with ⟨keep, hkeep, rfl⟩ | ⟨rfl, rfl⟩
    · exact absurd ⟨keep, after, hkeep, hends⟩ hkept
    · refine ⟨dice, after, wordDice_eq_some.mpr ⟨dice, after, hplain, .inr ⟨?_, hends, rfl, rfl⟩⟩⟩
      intro keep left hkeep
      exact Bool.eq_false_iff.mpr fun hleft => hkept ⟨keep, left, hkeep, hleft⟩

end

/-! ### Matches -/

namespace Trigger

variable {s : List Char} {m m' : Trigger}

/-- A match is where a word begins and dice can be read. -/
theorem matches_iff : Matches s m ↔ s = m.before ++ m.tail ∧ endsWord m.before.reverse = true ∧
    wordDice m.tail = some (m.dice, m.after) := by
  constructor
  · intro h
    have hends : endsWord m.after = true := (isBoundary_after h.group _ _).symm.trans h.closes
    have hbegins : endsWord m.before.reverse = true :=
      (isBoundary_before h.group _ _).symm.trans h.opens
    obtain ⟨dice, after, hread⟩ := exists_wordDice h.group hends
    obtain ⟨htail, hgroup, hafter, hlongest⟩ := longest_of_wordDice hread
    have hlong : dice.length ≤ m.dice.length := h.longest ⟨m.before, dice, after⟩
      { cut := h.cut.trans (congrArg (m.before ++ ·) htail)
        group := hgroup
        opens := (isBoundary_before hgroup _ _).trans hbegins
        closes := (isBoundary_after hgroup _ _).trans hafter } rfl
    have hshort : m.dice.length ≤ dice.length := hlongest m.dice m.after rfl h.group hends
    obtain ⟨rfl, rfl⟩ := List.append_inj htail (Nat.le_antisymm hshort hlong)
    exact ⟨h.cut, hbegins, hread⟩
  · rintro ⟨hcut, hbegins, hread⟩
    obtain ⟨-, hgroup, hafter, hlongest⟩ := longest_of_wordDice hread
    refine ⟨⟨hcut, hgroup, (isBoundary_before hgroup _ _).trans hbegins,
      (isBoundary_after hgroup _ _).trans hafter⟩, fun m' h' hbefore => ?_⟩
    have htail : m.tail = m'.tail := by
      have hcut' := h'.cut
      rw [hcut, hbefore] at hcut'
      exact List.append_cancel_left hcut'
    exact hlongest m'.dice m'.after htail h'.group ((isBoundary_after h'.group _ _).symm.trans h'.closes)

/-- From a match on, a text begins with the same match. -/
theorem Matches.isFirst_tail (h : Matches s m) :
    IsFirst (fun _ => True) m.tail ⟨[], m.dice, m.after⟩ where
  toMatches := matches_iff.mpr ⟨rfl, rfl, (matches_iff.mp h).2.2⟩
  allowed_before := trivial
  least _ _ _ := Nat.zero_le _

/-- Two first matches are the same. -/
theorem IsFirst.unique {allowed : List Char → Prop} (h : IsFirst allowed s m)
    (h' : IsFirst allowed s m') : m = m' := by
  obtain ⟨before, dice, after⟩ := m
  obtain ⟨before', dice', after'⟩ := m'
  have hlength := Nat.le_antisymm (h.least _ h'.toOccurs h'.allowed_before)
    (h'.least _ h.toOccurs h.allowed_before)
  obtain ⟨rfl, htail⟩ := List.append_inj (h.cut.symm.trans h'.cut) hlength
  have hlength := Nat.le_antisymm (h'.longest _ h.toOccurs rfl) (h.longest _ h'.toOccurs rfl)
  obtain ⟨rfl, rfl⟩ := List.append_inj htail hlength
  rfl

/-! ### The search -/

/-- What occurs right behind what has been passed begins a word, and dice can be read there. -/
theorem Occurs.exists_wordDice {seen : List Char} (h : Occurs (seen.reverse ++ s) m)
    (hlength : m.before.length = seen.length) : m.before = seen.reverse ∧ endsWord seen = true ∧
      ∃ dice after, wordDice s = some (dice, after) := by
  obtain ⟨hbefore, htail⟩ := List.append_inj h.cut (by simpa using hlength.symm)
  have hbegins := (isBoundary_before h.group _ _).symm.trans h.opens
  have hends := (isBoundary_after h.group _ _).symm.trans h.closes
  rw [← hbefore, List.reverse_reverse] at hbegins
  rw [htail]
  exact ⟨hbefore.symm, hbegins, DiceTables.exists_wordDice h.group hends⟩

/-- What a search has to let through: it comes no earlier than what has been passed, with a letter or a
digit before it. -/
def AllowedFrom (seen before : List Char) : Prop :=
  seen.length ≤ before.length ∧ before.any isAlphanumeric = true

/-- Where nothing occurs that counts, one more character can be passed. -/
theorem IsFirst.of_pass {c : Char} {seen : List Char} (h : IsFirst (AllowedFrom (c :: seen)) s m)
    (hskip : ∀ m', Occurs s m' → m'.before.any isAlphanumeric = true →
      m'.before.length ≠ seen.length) : IsFirst (AllowedFrom seen) s m where
  toMatches := h.toMatches
  allowed_before := ⟨(Nat.le_succ _).trans h.allowed_before.1, h.allowed_before.2⟩
  least m' h' hallowed :=
    h.least m' h' ⟨Nat.lt_of_le_of_ne hallowed.1 (hskip m' h' hallowed.2).symm, hallowed.2⟩

/-- The search goes on from what has been passed, for the first match with a letter or a digit before
it. -/
theorem findFrom?_isFirst : ∀ {s seen : List Char} {m : Trigger}, findFrom? seen s = some m →
    IsFirst (AllowedFrom seen) (seen.reverse ++ s) m
  | [], seen, m, h => by cases h
  | c :: rest, seen, m, h => by
    have hpass : findFrom? (c :: seen) rest = some m →
        IsFirst (AllowedFrom (c :: seen)) (seen.reverse ++ c :: rest) m := by
      intro h
      simpa using findFrom?_isFirst h
    rw [findFrom?, endsWord_take_one] at h
    split at h
    · next dice after hread =>
      split at h
      · next hletter =>
        cases h
        split at hread
        · next hbegins =>
          have htail : c :: rest = dice ++ after := takes_wordDice _ _ _ hread
          refine ⟨matches_iff.mpr ⟨by rw [tail, htail], by simpa using hbegins, ?_⟩,
            ⟨by simp, by simpa using hletter⟩, fun m' h' hallowed => by simpa using hallowed.1⟩
          rwa [tail, ← htail]
        · cases hread
      · next hletter =>
        -- dice without a letter or a digit before them are passed
        refine (hpass h).of_pass fun m' h' hletter' hlength => hletter ?_
        rw [(h'.exists_wordDice hlength).1] at hletter'
        simpa using hletter'
    · next hnone =>
      -- nothing can be read here, so nothing occurs here
      refine (hpass h).of_pass fun m' h' _ hlength => ?_
      obtain ⟨-, hbegins, dice, after, hread⟩ := h'.exists_wordDice hlength
      rw [if_pos hbegins, hread] at hnone
      cases hnone

/-- The trigger of a text is the first match with a letter or a digit before it. -/
theorem find?_isFirst (h : find? s = some m) :
    IsFirst (fun before => before.any isAlphanumeric = true) s m := by
  have hfirst := findFrom?_isFirst h
  exact ⟨hfirst.toMatches, hfirst.allowed_before.2,
    fun m' h' hletter => hfirst.least m' h' ⟨Nat.zero_le _, hletter⟩⟩

/-- A search that finds nothing has passed nothing that it has to let through. -/
theorem not_allowedFrom_of_findFrom?_eq_none : ∀ {s seen : List Char} {m : Trigger},
    findFrom? seen s = none → Occurs (seen.reverse ++ s) m → ¬ AllowedFrom seen m.before
  | [], seen, m, _, hoccurs, hallowed => by
    have hcut : seen.reverse = m.before ++ m.tail := by simpa using hoccurs.cut
    have htail : m.tail = [] := by
      have hlength := congrArg List.length hcut
      rw [List.length_reverse, List.length_append] at hlength
      have hbefore := hallowed.1
      exact List.length_eq_zero_iff.mp (by omega)
    have hword := hoccurs.group.endsWord_append m.after
    rw [← tail, htail] at hword
    cases hword
  | c :: rest, seen, m, h, hoccurs, hallowed => by
    rw [findFrom?, endsWord_take_one] at h
    by_cases hlength : m.before.length = seen.length
    · -- it would have been found right here
      obtain ⟨hbefore, hbegins, dice, after, hread⟩ := hoccurs.exists_wordDice hlength
      have hletter : seen.any isAlphanumeric = true := by
        rw [← List.any_reverse, ← hbefore]
        exact hallowed.2
      rw [if_pos hbegins, hread] at h
      simp only [hletter, if_true] at h
      cases h
    · have hmore : findFrom? (c :: seen) rest = none := by
        split at h
        · split at h
          · cases h
          · exact h
        · exact h
      have hbehind : (c :: seen).length ≤ m.before.length :=
        Nat.lt_of_le_of_ne hallowed.1 (Ne.symm hlength)
      exact not_allowedFrom_of_findFrom?_eq_none hmore (by simpa using hoccurs) ⟨hbehind, hallowed.2⟩

/-- In a text without a trigger nothing occurs that has a letter or a digit before it. -/
theorem Occurs.any_isAlphanumeric_of_find? (hoccurs : Occurs s m) (h : find? s = none) :
    m.before.any isAlphanumeric = false :=
  Bool.eq_false_iff.mpr fun hletter =>
    not_allowedFrom_of_findFrom?_eq_none h hoccurs ⟨Nat.zero_le _, hletter⟩

/-! ### No overlap -/

end Trigger

theorem IsPlainGroup.isWord {t : List Char} (h : IsPlainGroup t) : ∀ c ∈ t, isWord c = true := by
  obtain ⟨count, letter, sides, rfl, hcount, hletter, -, hsides⟩ := h
  refine List.forall_mem_append.mpr ⟨fun c hc => isWord_of_isDecimalDigit (hcount c hc), ?_⟩
  refine List.forall_mem_cons.mpr ⟨isWord_of_isDieLetter hletter, fun c hc => ?_⟩
  exact isWord_of_isDecimalDigit (hsides c hc)

/-- If a word ends within a group of dice, then right after its keep sign, so digits come next. -/
theorem digits_of_word_within {dice front back : List Char} (hgroup : IsGroup dice)
    (hcut : dice = front ++ back) (hne : front ≠ []) (hends : endsWord front.reverse = true) :
    ∀ c ∈ back, isDecimalDigit c = true := by
  obtain ⟨front, c, rfl⟩ := List.eq_nil_or_concat front |>.resolve_left hne
  have hc : isWord c = false := by simpa [endsWord] using hends
  have hword : ∀ {t : List Char}, (∀ d ∈ t, isWord d = true) → c ∉ t := by
    intro t ht hmem
    rw [ht c hmem] at hc
    cases hc
  rcases hgroup with hplain | ⟨plain, _, rfl, hplain, sign, kept, rfl, -, -, hkept⟩
  · exact absurd (by simp [hcut]) (hword hplain.isWord)
  · rw [List.concat_eq_append, List.append_assoc, List.singleton_append] at hcut
    have hkeptWord := hword fun d hd => isWord_of_isDecimalDigit (hkept d hd)
    rcases List.append_eq_append_iff.mp hcut with ⟨as, rfl, has⟩ | ⟨bs, rfl, hbs⟩
    · cases as with
      | nil =>
        obtain ⟨-, rfl⟩ := List.cons.inj has
        exact hkept
      | cons a as =>
        obtain ⟨-, rfl⟩ := List.cons.inj has
        exact absurd (by simp) hkeptWord
    · cases bs with
      | nil =>
        obtain ⟨-, rfl⟩ := List.cons.inj hbs
        exact hkept
      | cons b bs =>
        obtain ⟨rfl, -⟩ := List.cons.inj hbs
        exact absurd (by simp) (hword hplain.isWord)

/-- No group of dice starts with digits that a word ends with. -/
theorem IsGroup.append_ne {t digits after : List Char} (h : IsGroup t) (rest : List Char)
    (hdigits : ∀ c ∈ digits, isDecimalDigit c = true) (hends : endsWord after = true) :
    t ++ rest ≠ digits ++ after := by
  obtain ⟨count, letter, more, rfl, hcount, hletter⟩ : ∃ count letter more, t = count ++ letter :: more ∧
      (∀ c ∈ count, isDecimalDigit c = true) ∧ Line.isDieLetter letter = true := by
    rcases h with ⟨count, letter, sides, rfl, hcount, hletter, -⟩ |
      ⟨_, keep, rfl, ⟨count, letter, sides, rfl, hcount, hletter, -⟩, -⟩
    · exact ⟨count, letter, sides, rfl, hcount, hletter⟩
    · exact ⟨count, letter, sides ++ keep, by simp, hcount, hletter⟩
  intro heq
  rw [List.append_assoc] at heq
  have hdigit : isDecimalDigit letter = false := (Line.of_isDieLetter hletter).2.2.1
  obtain ⟨-, rfl⟩ := run_append_inj hcount hdigits (.cons hdigit _) (stops_of_endsWord hends) heq
  rw [endsWord, isWord_of_isDieLetter hletter] at hends
  cases hends

namespace Trigger

variable {s : List Char} {m m' : Trigger}

/-- Matches do not overlap: what occurs after the beginning of a match occurs after its end. -/
theorem Matches.apart (h : Matches s m) (h' : Occurs s m')
    (hlt : m.before.length < m'.before.length) : (m.before ++ m.dice).length ≤ m'.before.length := by
  by_contra hle
  have hwhole : m.before ++ (m.dice ++ m.after) = m'.before ++ m'.tail := h.cut.symm.trans h'.cut
  obtain ⟨front, hbefore, htail⟩ : ∃ front, m'.before = m.before ++ front ∧
      m.dice ++ m.after = front ++ m'.tail := by
    rcases List.append_eq_append_iff.mp hwhole with hfront | ⟨bs, hbs, -⟩
    · exact hfront
    · rw [hbs, List.length_append] at hlt
      omega
  rw [hbefore, List.length_append, List.length_append] at hle
  obtain ⟨back, hdice, hback⟩ : ∃ back, m.dice = front ++ back ∧ m'.tail = back ++ m.after := by
    rcases List.append_eq_append_iff.mp htail with ⟨as, has, -⟩ | hback
    · rw [has, List.length_append] at hle
      omega
    · exact hback
  have hfront : front ≠ [] := by
    rintro rfl
    rw [hbefore, List.append_nil] at hlt
    exact Nat.lt_irrefl _ hlt
  have hbegins : endsWord front.reverse = true := by
    have hopens := (isBoundary_before h'.group _ _).symm.trans h'.opens
    rwa [hbefore, List.reverse_append, endsWord_append (List.reverse_ne_nil_iff.mpr hfront)] at hopens
  exact h'.group.append_ne m'.after (digits_of_word_within h.group hdice hfront hbegins)
    ((isBoundary_after h.group _ _).symm.trans h.closes) hback

end Trigger

/-! ### Tables inside outcomes -/

/-- What is left of a text without noise at its ends is a piece of it. -/
theorem strip_infix (s : List Char) : strip s <:+: s := by
  obtain ⟨before, after, heq, -, -⟩ := exists_append_trimWhile_append isNoise s
  exact ⟨before, after, by rw [List.append_assoc]; exact heq.symm⟩

theorem any_isAlphanumeric_strip {s : List Char} (h : s.any isAlphanumeric = true) :
    (strip s).any isAlphanumeric = true := by
  obtain ⟨c, hc, hletter⟩ := List.any_eq_true.mp h
  exact List.any_eq_true.mpr ⟨c, mem_trimWhile hc (noise_apart_alphanumeric.symm c hletter), hletter⟩

/-- A text is cut at a position of it, which is not its end if something is left. -/
theorem exists_splits {text : String} {before after : List Char} (h : text.toList = before ++ after)
    (hne : after ≠ []) : ∃ start : text.Pos,
      start.Splits (String.ofList before) (String.ofList after) ∧ start ≠ text.endPos := by
  have htext : text = String.ofList before ++ String.ofList after := by
    rw [← String.ofList_append, ← h, String.ofList_toList]
  refine ⟨⟨(String.ofList before).rawEndPos,
    String.Pos.Raw.isValid_iff_exists_append.mpr ⟨_, _, htext, rfl⟩⟩, ⟨htext, rfl⟩, fun hend => hne ?_⟩
  have hafter := (String.Pos.Splits.eq_endPos_iff ⟨htext, rfl⟩).mp hend
  simpa using hafter

namespace Table

/-- The table inside an outcome is what becomes of the dice of the trigger and of the items after them;
that the dice are read once more decides nothing. -/
theorem subtable?_eq_some_iff {t inner : Table} {e : Entry} {trigger : Trigger}
    (h : t.trigger? e = some trigger) : t.subtable? e = some inner ↔ ∃ expr,
      Expr.ofNotation trigger.dice t.limits = .ok expr ∧
      2 ≤ (inlineEntries (Marker.findAll trigger.after)).length ∧
      ofParts [] expr (inlineEntries (Marker.findAll trigger.after)) (t.depth + 1) t.limits =
        .ok inner := by
  have hread : wordDice trigger.tail = some (trigger.dice, trigger.after) :=
    (Trigger.matches_iff.mp (Trigger.find?_isFirst (find?_of_trigger? h)).toMatches).2.2
  rw [subtable?, h, Option.bind_some, inline?, hread, Option.bind_eq_bind, Option.bind_some]
  simp only [Option.bind_eq_bind, Option.bind_eq_some_iff, toOption_eq_some]
  refine exists_congr fun expr => and_congr_right fun _ => ?_
  split
  · next hfew => simp [Nat.not_le.mpr hfew]
  · next hmany => simp [Nat.not_lt.mp hmany, toOption_eq_some]

theorem label_of_subtable? {t inner : Table} {e : Entry} {trigger : Trigger}
    (h : t.trigger? e = some trigger) (hinner : t.subtable? e = some inner) :
    (t.label e).toList = strip trigger.before := by
  rw [label, h, hinner, String.toList_ofList]

/-- What is known of the trigger of an outcome and of the rest of the text that starts with it. -/
structure StartsRest (text : String) (trigger : Trigger) : Prop where
  /-- It is the first match with a letter or a digit before it. -/
  isFirst : trigger.IsFirst (fun before => before.any isAlphanumeric = true) text.toList
  /-- Any match that begins before it ends before it as well. -/
  apart : ∀ m, Trigger.Matches text.toList m → m.before.length < trigger.before.length →
    (m.before ++ m.dice).length ≤ trigger.before.length
  /-- The text is cut between two characters, with something left. -/
  exists_start : ∃ start : text.Pos, start ≠ text.endPos ∧
    start.Splits (String.ofList trigger.before) (String.ofList trigger.tail)
  /-- The first match of what is left is at its start and is the same. -/
  first_of_tail : ∀ m, Trigger.IsFirst (fun _ => True) trigger.tail m ↔
    m = ⟨[], trigger.dice, trigger.after⟩

theorem startsRest_of_find? {text : String} {trigger : Trigger}
    (h : Trigger.find? text.toList = some trigger) : StartsRest text trigger := by
  have hfirst := Trigger.find?_isFirst h
  have htail := hfirst.toMatches.isFirst_tail
  refine ⟨hfirst, fun m hm hlt => hm.apart hfirst.toOccurs hlt, ?_, fun m => ?_⟩
  · have hne : trigger.tail ≠ [] := by
      intro hnil
      have hread := (Trigger.matches_iff.mp hfirst.toMatches).2.2
      rw [hnil] at hread
      cases hread
    obtain ⟨start, hsplits, hend⟩ := exists_splits hfirst.cut hne
    exact ⟨start, hend, hsplits⟩
  · constructor
    · exact fun hm => hm.unique htail
    · rintro rfl
      exact htail

/-- What is found as the trigger of an outcome is also what the text from there on begins with, so that
the table inside the outcome only depends on whether the dice and the items after them can be used. In
front of such a table there is a label, a piece of the text before the trigger with a letter or a digit
in it. -/
theorem trigger_starts_rest (t : Table) (e : Entry) :
    (∀ trigger, t.trigger? e = some trigger → StartsRest e.text trigger ∧
      ∀ inner, t.subtable? e = some inner ↔ ∃ expr,
        Expr.ofNotation trigger.dice t.limits = .ok expr ∧
        2 ≤ (inlineEntries (Marker.findAll trigger.after)).length ∧
        ofParts [] expr (inlineEntries (Marker.findAll trigger.after)) (t.depth + 1) t.limits =
          .ok inner) ∧
    ∀ inner, t.subtable? e = some inner → ∃ trigger, t.trigger? e = some trigger ∧
      t.label e ≠ "" ∧ (t.label e).toList.any isAlphanumeric = true ∧
      (t.label e).toList <:+: trigger.before := by
  refine ⟨fun trigger h => ⟨startsRest_of_find? (find?_of_trigger? h),
    fun inner => subtable?_eq_some_iff h⟩, fun inner hinner => ?_⟩
  obtain ⟨trigger, h, -⟩ := Option.bind_eq_some_iff.mp hinner
  have hletter : (t.label e).toList.any isAlphanumeric = true := by
    rw [label_of_subtable? h hinner]
    exact any_isAlphanumeric_strip (Trigger.find?_isFirst (find?_of_trigger? h)).allowed_before
  refine ⟨trigger, h, ?_, hletter, ?_⟩
  · intro hempty
    rw [hempty] at hletter
    cases hletter
  · rw [label_of_subtable? h hinner]
    exact strip_infix trigger.before

/-- Dice at the start trigger nothing, a letter beyond ASCII comes before the trigger, and what looks
like its keep mode runs into other dice. -/
theorem summer_storm_starts_rest :
    let e : Entry := ⟨1, 1, "6d6: Été d6^3d4 1 fire 2 ice", by decide⟩
    let trigger : Trigger := ⟨"6d6: Été ".toList, "d6".toList, "^3d4 1 fire 2 ice".toList⟩
    ∃ t : Table, t.trigger? e = some trigger ∧ StartsRest e.text trigger ∧
      (t.subtable? e).isSome = true ∧ t.label e ≠ "" ∧ (t.label e).toList <:+: trigger.before := by
  intro e trigger
  have hfacts : (build "d2 Storm".toList [("1. " ++ e.text).toList, "2. Calm".toList] {}).toOption.any
      (fun t => (t.subtable? e).isSome && (t.trigger? e).any fun m =>
        m.before = trigger.before && m.dice = trigger.dice && m.after = trigger.after) = true := by
    decide +kernel
  obtain ⟨t, -, ht⟩ := (Option.any_eq_true _ _).mp hfacts
  obtain ⟨hsome, hm⟩ := (Bool.and_eq_true _ _).mp ht
  obtain ⟨m, htrigger, hm⟩ := (Option.any_eq_true _ _).mp hm
  have hsame : m = trigger := by
    simp only [Bool.and_eq_true, decide_eq_true_eq] at hm
    obtain ⟨⟨hbefore, hdice⟩, hafter⟩ := hm
    cases m
    subst hbefore hdice hafter
    rfl
  rw [hsame] at htrigger
  obtain ⟨inner, hinner⟩ := Option.isSome_iff_exists.mp hsome
  obtain ⟨m', htrigger', hne, -, hpiece⟩ := (trigger_starts_rest t e).2 inner hinner
  obtain rfl := Option.some.inj (htrigger.symm.trans htrigger')
  exact ⟨t, htrigger, ((trigger_starts_rest t e).1 trigger htrigger).1, hsome, hne, hpiece⟩

end Table

end DiceTables
