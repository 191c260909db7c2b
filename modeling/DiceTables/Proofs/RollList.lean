import DiceTables.Dice.Rolled
import DiceTables.Proofs.Scanning
import Mathlib.Data.List.Forall2
import Mathlib.Data.List.Infix

/-!
The list of rolls in a description, read word by word. Parentheses say whether a word stands inside
them, and blanks and parentheses end a word; so what is listed, and what of it is marked as dropped,
can be read off the text alone. Three stretches of the rolls are written one after the other, cut at
the ends of the kept ones and at the number that is shown, and together they are the rolls up to there.

Where nothing is shown at all, the dropped rolls before the kept ones still get their parentheses, and
those are empty. That is the only case in which they are.
-/

namespace DiceTables

open List (Forall₂)
open Text.Scanner (Stops)

namespace Rolled

/-! ### Reading a list -/

/-- The word that has been read so far, if there is one. -/
def ended (inside : Bool) (word : List Char) : List (Bool × List Char) :=
  if word = [] then [] else [(inside, word)]

/-- The words of a text, each with whether it stands in parentheses. The reader knows whether it is
inside parentheses itself, and what it has read of a word. -/
def wordsFrom (inside : Bool) (word : List Char) : List Char → List (Bool × List Char)
  | [] => ended inside word
  | '(' :: s => ended inside word ++ wordsFrom true [] s
  | ')' :: s => ended inside word ++ wordsFrom false [] s
  | ' ' :: s => ended inside word ++ wordsFrom inside [] s
  | c :: s => wordsFrom inside (word ++ [c]) s

/-- The words of a list, each with whether it stands in parentheses. -/
def words (list : String) : List (Bool × List Char) := wordsFrom false [] list.toList

/-- No blank and no parenthesis. -/
def isOfWord (c : Char) : Bool := c ≠ '(' && c ≠ ')' && c ≠ ' '

variable {inside : Bool} {s : List Char}

theorem wordsFrom_append : ∀ {p : List Char}, (∀ c ∈ p, isOfWord c = true) → ∀ word s,
    wordsFrom inside word (p ++ s) = wordsFrom inside (word ++ p) s
  | [], _, word, s => by rw [List.nil_append, List.append_nil]
  | c :: p, h, word, s => by
    obtain ⟨hc, hp⟩ := List.forall_mem_cons.mp h
    simp only [isOfWord, Bool.and_eq_true, decide_eq_true_eq] at hc
    obtain ⟨⟨hopen, hclose⟩, hblank⟩ := hc
    rw [List.cons_append, wordsFrom, wordsFrom_append hp, List.append_assoc, List.singleton_append]
    all_goals assumption

/-- At a blank, at a parenthesis and at the end of the text a word has ended. -/
theorem wordsFrom_of_stops (h : Stops isOfWord s) (word : List Char) :
    wordsFrom inside word s = ended inside word ++ wordsFrom inside [] s := by
  cases s with
  | nil => simp [wordsFrom, ended]
  | cons c s =>
    have hc : (c = '(' ∨ c = ')') ∨ c = ' ' := by
      have hc := h c rfl
      simp only [isOfWord, Bool.and_eq_false_iff, decide_eq_false_iff_not, not_not] at hc
      exact hc
    obtain (rfl | rfl) | rfl := hc <;> simp [wordsFrom, ended]

theorem wordsFrom_word {p : List Char} (hne : p ≠ []) (hp : ∀ c ∈ p, isOfWord c = true)
    (hs : Stops isOfWord s) :
    wordsFrom inside [] (p ++ s) = (inside, p) :: wordsFrom inside [] s := by
  rw [wordsFrom_append hp, List.nil_append, wordsFrom_of_stops hs, ended, if_neg hne]
  rfl

/-! ### The parts of a list -/

theorem isDigit_of_mem_toString {n : Nat} {c : Char} (h : c ∈ (toString n).toList) :
    c.isDigit = true := by
  rw [Nat.toString_eq_repr, Nat.toList_repr] at h
  exact Nat.isDigit_of_mem_toDigits (by decide) (by decide) h

theorem not_mem_toString {c : Char} (h : c.isDigit = false) (n : Nat) : c ∉ (toString n).toList :=
  fun hmem => absurd (isDigit_of_mem_toString hmem) (by rw [h]; decide)

theorem isOfWord_of_isDigit {c : Char} (h : c.isDigit = true) : isOfWord c = true := by
  simp only [isOfWord, Bool.and_eq_true, decide_eq_true_eq]
  refine ⟨⟨?_, ?_⟩, ?_⟩ <;> rintro rfl <;> revert h <;> decide

theorem wordsFrom_number (n : Nat) (hs : Stops isOfWord s) :
    wordsFrom inside [] ((toString n).toList ++ s) =
      (inside, (toString n).toList) :: wordsFrom inside [] s := by
  refine wordsFrom_word ?_ (fun c hc => isOfWord_of_isDigit (isDigit_of_mem_toString hc)) hs
  rw [Nat.toString_eq_repr, Nat.toList_repr]
  exact Nat.toDigits_ne_nil

theorem toList_intercalate_cons_cons (part part' : String) (parts : List String) :
    (" ".intercalate (part :: part' :: parts)).toList =
      part.toList ++ ' ' :: (" ".intercalate (part' :: parts)).toList := by
  rw [String.intercalate_cons_cons, String.toList_append, String.toList_append, List.append_assoc]
  rfl

theorem spaced_singleton (v : Nat) : spaced [v] = toString v := String.intercalate_singleton

theorem toList_spaced_cons_cons (v w : Nat) (values : List Nat) : (spaced (v :: w :: values)).toList =
    (toString v).toList ++ ' ' :: (spaced (w :: values)).toList :=
  toList_intercalate_cons_cons (toString v) (toString w) (values.map toString)

/-- Some rolls as words, all inside or all outside parentheses. -/
def marked (inside : Bool) (values : List Nat) : List (Bool × List Char) :=
  values.map fun v => (inside, (toString v).toList)

theorem wordsFrom_spaced (hs : Stops isOfWord s) : ∀ values : List Nat,
    wordsFrom inside [] ((spaced values).toList ++ s) = marked inside values ++ wordsFrom inside [] s
  | [] => rfl
  | [v] => by
    rw [spaced_singleton, wordsFrom_number v hs]
    rfl
  | v :: w :: values => by
    have hblank : Stops isOfWord (' ' :: ((spaced (w :: values)).toList ++ s)) :=
      .cons (by decide) _
    rw [toList_spaced_cons_cons, List.append_assoc, List.cons_append, wordsFrom_number v hblank,
      wordsFrom, wordsFrom_spaced hs (w :: values)]
    rfl

/-- The part of a list has these words, whatever comes after it. -/
def Reads (part : String) (found : List (Bool × List Char)) : Prop :=
  ∀ s, Stops isOfWord s →
    wordsFrom false [] (part.toList ++ s) = found ++ wordsFrom false [] s

theorem reads_kept (values : List Nat) : Reads (spaced values) (marked false values) :=
  fun _ hs => wordsFrom_spaced hs values

theorem reads_dropped (values : List Nat) :
    Reads ("(" ++ spaced values ++ ")") (marked true values) := by
  intro s hs
  have hclose : Stops isOfWord (')' :: s) := .cons (by decide) s
  have hsplit : ("(" ++ spaced values ++ ")").toList ++ s =
      '(' :: ((spaced values).toList ++ ')' :: s) := by simp
  rw [hsplit]
  show wordsFrom true [] ((spaced values).toList ++ ')' :: s) = _
  rw [wordsFrom_spaced hclose]
  rfl

theorem reads_more (n : Nat) : Reads (toString n ++ " more...")
    [(false, (toString n).toList), (false, "more...".toList)] := by
  intro s hs
  have hblank : Stops isOfWord (' ' :: ("more...".toList ++ s)) := .cons (by decide) _
  have hsplit : (toString n ++ " more...").toList ++ s =
      (toString n).toList ++ ' ' :: ("more...".toList ++ s) := by simp
  have hword : ∀ c ∈ "more...".toList, isOfWord c = true := List.all_eq_true.mp (by decide)
  rw [hsplit, wordsFrom_number n hblank, wordsFrom, wordsFrom_word (by decide) hword hs]
  rfl

/-- Parts with a blank between them have their words one after the other. -/
theorem reads_intercalate {parts : List String} {founds : List (List (Bool × List Char))}
    (h : Forall₂ Reads parts founds) : Reads (" ".intercalate parts) founds.flatten := by
  induction h with
  | nil => exact fun s _ => rfl
  | @cons part found parts founds hpart hparts ih =>
    cases hparts with
    | nil => simpa using hpart
    | @cons part' found' parts founds hpart' hparts =>
      intro s hs
      rw [toList_intercalate_cons_cons, List.append_assoc, List.cons_append,
        hpart _ (.cons (by decide) _), wordsFrom, ih s hs]
      simp [ended]

theorem reads_if {p : Prop} [Decidable p] {part : String} {found : List (Bool × List Char)}
    (h : Reads part found) :
    Forall₂ Reads (if p then [part] else []) (if p then [found] else []) := by
  split
  · exact .cons h .nil
  · exact .nil

/-! ### The words of a description -/

/-- A list whose elements are told apart by two ends falls into three stretches. -/
theorem mapIdx_outside_eq {α β : Type} (f : Bool → α → β) : ∀ {start stop : Nat}, start ≤ stop →
    ∀ values : List α, (values.mapIdx fun i v => f (i < start || stop ≤ i) v) =
      (values.take start).map (f true) ++ ((values.take stop).drop start).map (f false) ++
        (values.drop stop).map (f true)
  | _, _, _, [] => by simp
  | start + 1, stop + 1, hle, v :: values => by
    have hrest := mapIdx_outside_eq f (Nat.le_of_succ_le_succ hle) values
    simpa [List.mapIdx_cons] using hrest
  | 0, stop + 1, _, v :: values => by
    have hrest := mapIdx_outside_eq f (Nat.zero_le stop) values
    simpa [List.mapIdx_cons] using hrest
  | 0, 0, _, v :: values => by
    have hrest := mapIdx_outside_eq f (Nat.le_refl 0) values
    simpa [List.mapIdx_cons] using hrest

/-- The rolls up to a number as words, in parentheses where they are not among the kept ones. -/
def shownWords (r : Rolled) (shown : Nat) : List (Bool × List Char) :=
  (r.rolls.take shown).mapIdx fun i v => (i < r.start || r.stop ≤ i, (toString v).toList)

theorem start_le_stop (r : Rolled) : r.start ≤ r.stop := by
  rw [start, stop]
  cases r.dice.keep <;> simp [Keep.start, Keep.stop]

theorem start_le_length (r : Rolled) : r.start ≤ r.rolls.length := by
  rw [start]
  cases r.dice.keep with
  | top kept => exact Nat.sub_le _ kept
  | all => exact Nat.zero_le _
  | bottom kept => exact Nat.zero_le _

/-- Up to the number that is shown, the three stretches of a list are those of the rolls. -/
theorem shownWords_eq (r : Rolled) (shown : Nat) :
    r.shownWords shown = marked true (r.between 0 (min r.start shown)) ++
      marked false (r.between r.start (min r.stop shown)) ++ marked true (r.between r.stop shown) := by
  rw [shownWords, mapIdx_outside_eq (fun inside v => (inside, (toString v).toList)) r.start_le_stop,
    List.take_take, List.take_take]
  rfl

theorem marked_between_eq_nil {r : Rolled} {inside : Bool} {start stop : Nat} (h : stop ≤ start) :
    marked inside (r.between start stop) = [] := by
  have hempty : r.between start stop = [] :=
    List.drop_eq_nil_of_le ((List.length_take_le _ _).trans h)
  rw [hempty]
  rfl

/-- A part that is left out where it has no words. -/
theorem flatten_if {α : Type} {p : Prop} [Decidable p] {found : List α} (h : ¬ p → found = []) :
    (if p then [found] else []).flatten = found := by
  split
  · exact List.append_nil found
  · next hp => exact (h hp).symm

/-- The words that say how many rolls there are besides, if there are any. -/
def hiddenWords (hidden : Nat) : List (Bool × List Char) :=
  if 0 < hidden then [(false, (toString hidden).toList), (false, "more...".toList)] else []

/-- The words of a list are the shown rolls and how many there are besides. -/
theorem reads_groups (r : Rolled) (shown : Nat) : Reads (" ".intercalate (r.groups shown))
    (r.shownWords shown ++ hiddenWords (r.rolls.length - shown)) := by
  have hread := reads_intercalate (List.rel_append (List.rel_append (List.rel_append
    (reads_if (p := 0 < r.start) (reads_dropped (r.between 0 (min r.start shown))))
    (reads_if (p := r.start < shown) (reads_kept (r.between r.start (min r.stop shown)))))
    (reads_if (p := r.stop < shown) (reads_dropped (r.between r.stop shown))))
    (reads_if (p := shown < r.rolls.length) (reads_more (r.rolls.length - shown))))
  have hhidden : hiddenWords (r.rolls.length - shown) = (if shown < r.rolls.length then
      [[(false, (toString (r.rolls.length - shown)).toList), (false, "more...".toList)]]
        else []).flatten := by
    simp only [hiddenWords, Nat.sub_pos_iff_lt]
    split <;> rfl
  simp only [List.flatten_append] at hread
  rw [flatten_if fun h => marked_between_eq_nil (by omega),
    flatten_if fun h => marked_between_eq_nil (by omega),
    flatten_if fun h => marked_between_eq_nil (by omega)] at hread
  rwa [shownWords_eq, hhidden]

/-! ### What stands in a list -/

/-- Of two texts with a blank between them, one has the pattern, where the pattern has no blank. -/
theorem infix_append_blank_iff {p l m : List Char} (hne : p ≠ []) (hblank : ' ' ∉ p) :
    p <:+: l ++ ' ' :: m ↔ p <:+: l ∨ p <:+: m := by
  have hfront : ∀ {q : List Char}, q ≠ [] → q <+: ' ' :: m → ' ' ∈ q := by
    intro q hq h
    obtain ⟨c, q, rfl⟩ := List.exists_cons_of_ne_nil hq
    rw [(List.cons_prefix_cons.mp h).1]
    exact List.mem_cons_self
  constructor
  · intro h
    rcases List.infix_append_iff_ne_nil.mp h with h | h | ⟨q, q', -, hq', rfl, -, h⟩
    · exact .inl h
    · rcases List.infix_cons_iff.mp h with h | h
      · exact absurd (hfront hne h) hblank
      · exact .inr h
    · exact absurd (List.mem_append_right q (hfront hq' h)) hblank
  · rintro (h | h)
    · exact List.infix_append_of_infix_left h
    · exact List.infix_append_of_infix_right (h.trans (List.suffix_cons ' ' m).isInfix)

/-- A pattern without a blank stands in a list where it stands in one of its parts. -/
theorem infix_intercalate_iff {p : List Char} (hne : p ≠ []) (hblank : ' ' ∉ p) :
    ∀ parts : List String, p <:+: (" ".intercalate parts).toList ↔ ∃ part ∈ parts, p <:+: part.toList
  | [] => by simpa using hne
  | [part] => by simp
  | part :: part' :: parts => by
    rw [toList_intercalate_cons_cons, infix_append_blank_iff hne hblank,
      infix_intercalate_iff hne hblank (part' :: parts)]
    simp only [List.mem_cons, exists_eq_or_imp]

/-- A list ends with its last part. -/
theorem suffix_intercalate (parts : List String) (part : String) :
    part.toList <:+ (" ".intercalate (parts ++ [part])).toList := by
  rcases eq_or_ne parts [] with rfl | hne
  · simp
  · rw [String.intercalate_append_of_ne_nil hne (List.cons_ne_nil part []),
      String.intercalate_singleton, String.toList_append]
    exact List.suffix_append _ _

/-- The rolls of a group are written with digits and blanks only. -/
theorem not_mem_spaced {c : Char} (hdigit : c.isDigit = false) (hblank : c ≠ ' ') :
    ∀ values : List Nat, c ∉ (spaced values).toList
  | [] => by simp [spaced]
  | [v] => by
    rw [spaced_singleton]
    exact not_mem_toString hdigit v
  | v :: w :: values => by
    rw [toList_spaced_cons_cons, List.mem_append, List.mem_cons]
    rintro (h | rfl | h)
    · exact not_mem_toString hdigit v h
    · exact hblank rfl
    · exact not_mem_spaced hdigit hblank (w :: values) h

theorem spaced_ne_nil {values : List Nat} (h : values ≠ []) : (spaced values).toList ≠ [] := by
  intro hnil
  have hread : wordsFrom false [] ((spaced values).toList ++ []) = _ :=
    wordsFrom_spaced Stops.nil values
  rw [hnil] at hread
  cases values with
  | nil => exact h rfl
  | cons v values => cases hread

/-- The only parentheses of a group of dropped rolls are those around it. -/
theorem empty_parentheses_infix_dropped_iff {values : List Nat} :
    ['(', ')'] <:+: ("(" ++ spaced values ++ ")").toList ↔ values = [] := by
  have hsplit : ("(" ++ spaced values ++ ")").toList = '(' :: ((spaced values).toList ++ [')']) := by
    simp
  rw [hsplit]
  constructor
  · intro h
    by_contra hne
    rcases List.infix_cons_iff.mp h with h | h
    · -- the first roll comes right after the parenthesis
      obtain ⟨c, rest, hc⟩ := List.exists_cons_of_ne_nil (spaced_ne_nil hne)
      rw [hc, List.cons_append, List.cons_prefix_cons, List.cons_prefix_cons] at h
      obtain ⟨-, rfl, -⟩ := h
      refine not_mem_spaced (c := ')') (by decide) (by decide) values ?_
      rw [hc]
      exact List.mem_cons_self
    · have hmem : '(' ∈ (spaced values).toList ++ [')'] := h.subset List.mem_cons_self
      rcases List.mem_append.mp hmem with h | h
      · exact not_mem_spaced (by decide) (by decide) values h
      · revert h
        decide
  · rintro rfl
    exact List.infix_refl _

/-! ### Descriptions -/

/-- How many rolls a description lists one by one. -/
def shown (r : Rolled) : Option Nat → Nat
  | none => r.rolls.length
  | some limit => min limit r.rolls.length

theorem shown_le (r : Rolled) (limit : Option Nat) : r.shown limit ≤ r.rolls.length := by
  cases limit with
  | none => exact le_rfl
  | some limit => exact min_le_right limit _

theorem describe_eq (r : Rolled) (limit : Option Nat) : r.describe limit =
    r.dice.text ++ "[" ++ " ".intercalate (r.groups (r.shown limit)) ++ "]" := by
  cases limit <;> rfl

/-- Some group of a list is as required if one of the four is that is there. -/
theorem exists_mem_groups_iff {r : Rolled} {shown : Nat} {P : String → Prop} :
    (∃ part ∈ r.groups shown, P part) ↔
      (0 < r.start ∧ P ("(" ++ spaced (r.between 0 (min r.start shown)) ++ ")")) ∨
      (r.start < shown ∧ P (spaced (r.between r.start (min r.stop shown)))) ∨
      (r.stop < shown ∧ P ("(" ++ spaced (r.between r.stop shown) ++ ")")) ∨
      (shown < r.rolls.length ∧ P (toString (r.rolls.length - shown) ++ " more...")) := by
  simp only [groups, List.mem_append, List.mem_ite_nil_right, List.mem_singleton, or_and_right,
    exists_or, and_assoc, exists_and_left, exists_eq_left, or_assoc]

theorem stop_mem_more (n : Nat) : '.' ∈ (toString n ++ " more...").toList := by
  rw [String.toList_append]
  exact List.mem_append_right _ (by decide)

/-- Only the number of rolls that are left out is written with a full stop. -/
theorem stop_mem_list_iff {r : Rolled} {shown : Nat} :
    '.' ∈ (" ".intercalate (r.groups shown)).toList ↔ shown < r.rolls.length := by
  have hspaced : ∀ values, '.' ∉ (spaced values).toList := not_mem_spaced (by decide) (by decide)
  have hdropped : ∀ values, '.' ∉ ("(" ++ spaced values ++ ")").toList := by
    intro values h
    simp only [String.toList_append, List.mem_append, or_assoc] at h
    rcases h with h | h | h
    · revert h
      decide
    · exact hspaced values h
    · revert h
      decide
  rw [← List.singleton_infix_iff, infix_intercalate_iff (by decide) (by decide),
    exists_mem_groups_iff]
  simp only [List.singleton_infix_iff, hspaced, hdropped, stop_mem_more, and_false, and_true,
    false_or]

/-- Of the groups of dropped rolls only those in front can be empty, and only if nothing is shown. -/
theorem empty_parentheses_infix_list_iff {r : Rolled} {shown : Nat} (h : shown ≤ r.rolls.length) :
    ['(', ')'] <:+: (" ".intercalate (r.groups shown)).toList ↔ 0 < r.start ∧ shown = 0 := by
  have hkept : ∀ values, ¬ ['(', ')'] <:+: (spaced values).toList := by
    intro values hempty
    exact not_mem_spaced (by decide) (by decide) values (hempty.subset List.mem_cons_self)
  have hmore : ∀ n : Nat, ¬ ['(', ')'] <:+: (toString n ++ " more...").toList := by
    intro n hempty
    have hmem := hempty.subset List.mem_cons_self
    rw [String.toList_append, List.mem_append] at hmem
    rcases hmem with h | h
    · exact not_mem_toString (by decide) n h
    · revert h
      decide
  have hbetween : ∀ {start stop : Nat}, stop ≤ r.rolls.length →
      (r.between start stop = [] ↔ stop ≤ start) := by
    intro start stop hstop
    rw [between, List.drop_eq_nil_iff, List.length_take_of_le hstop]
  rw [infix_intercalate_iff (by decide) (by decide), exists_mem_groups_iff]
  simp only [empty_parentheses_infix_dropped_iff, hkept, hmore, and_false, false_or, or_false,
    hbetween h, hbetween ((min_le_right _ shown).trans h)]
  omega

/-- What a description says of the rolls: the list in its brackets. -/
structure Lists (r : Rolled) (limit : Option Nat) (list : String) : Prop where
  describe_eq : r.describe limit = r.dice.text ++ "[" ++ list ++ "]"
  /-- The first rolls, each in parentheses where it is not among the kept ones, and how many there
  are besides. -/
  words_eq : words list =
    r.shownWords (r.shown limit) ++ hiddenWords (r.rolls.length - r.shown limit)
  ascending : (r.rolls.take (r.shown limit)).Pairwise (· ≤ ·)
  ends_iff : (toString (r.rolls.length - r.shown limit) ++ " more...").toList <:+ list.toList ↔
    0 < r.rolls.length - r.shown limit
  /-- Parentheses with nothing between them. -/
  empty_iff : ['(', ')'] <:+: list.toList ↔ limit = some 0 ∧ 0 < r.start

/-- A description lists the first rolls in ascending order, as many as the limit allows, each in
parentheses just if it is not kept, and says at the end how many more there are, if there are any. Its
parentheses are empty just if nothing is to be listed and rolls before the kept ones are dropped. -/
theorem describe_lists_rolls (r : Rolled) (limit : Option Nat) :
    ∃ list, r.Lists limit list := by
  have hle := r.shown_le limit
  refine ⟨" ".intercalate (r.groups (r.shown limit)), ?_⟩
  constructor
  · exact r.describe_eq limit
  · have hread := reads_groups r (r.shown limit) [] Stops.nil
    rwa [List.append_nil, wordsFrom, ended, if_pos rfl, List.append_nil] at hread
  · exact r.ascending.sublist (List.take_sublist _ _)
  · rw [Nat.sub_pos_iff_lt]
    constructor
    · intro hends
      exact stop_mem_list_iff.mp (hends.subset (stop_mem_more _))
    · intro hlt
      rw [groups, if_pos hlt]
      exact suffix_intercalate _ _
  · rw [empty_parentheses_infix_list_iff hle]
    constructor
    · rintro ⟨hstart, hshown⟩
      have hlength : 0 < r.rolls.length := hstart.trans_le r.start_le_length
      refine ⟨?_, hstart⟩
      cases limit with
      | none => exact absurd hshown hlength.ne'
      | some limit => exact congrArg some ((Nat.min_eq_zero_iff.mp hshown).resolve_right hlength.ne')
    · rintro ⟨rfl, hstart⟩
      exact ⟨hstart, Nat.zero_min _⟩

/-- Five dice of which the two highest count, and no roll is to be listed: the three that are dropped
leave empty parentheses. -/
theorem empty_parentheses : ∃ (d : Dice) (r : Rolled),
    Dice.Request.build { count := 5, sides := 10, keep := .top 2 } {} = .ok d ∧
      r = ofRolls d [3, 9, 1, 7, 4] ∧ r.describe (some 0) = "5d10^2[() 5 more...]" ∧
        ['(', ')'] <:+: (r.describe (some 0)).toList := by
  let d : Dice :=
    { count := 5, sides := 10, keep := .top 2, one_le_count := by decide, count_lt := by decide
      two_le_sides := by decide, sides_lt := by decide, one_le_kept := by decide
      kept_le_count := by decide }
  have hlength : (ofRolls d [3, 9, 1, 7, 4]).rolls.length = 5 := List.length_mergeSort _
  have hstart : (ofRolls d [3, 9, 1, 7, 4]).start = 3 := by
    rw [start, hlength]
    rfl
  have hdescribe : (ofRolls d [3, 9, 1, 7, 4]).describe (some 0) = "5d10^2[() 5 more...]" := by
    rw [describe_eq, shown, groups, hlength, hstart]
    decide +kernel
  refine ⟨d, _, by decide +kernel, rfl, hdescribe, ?_⟩
  rw [hdescribe]
  exact ⟨"5d10^2[".toList, " 5 more...]".toList, by decide⟩

end Rolled

end DiceTables
