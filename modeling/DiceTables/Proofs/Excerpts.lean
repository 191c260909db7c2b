import DiceTables.Proofs.Building
import DiceTables.Proofs.TableText

/-!
Where the texts of a table come from. A pattern takes what it reads off the front of a text and
leaves the end of it as it is, and from what is left only noise is dropped. So every description and
every outcome is a piece of one line, with nothing in it that the line does not have; in particular
it has no line break, and no noise at its ends. This holds of tables inside outcomes as well.
-/

namespace DiceTables

open Text Scanner

/-! ### What patterns leave -/

namespace Text.Scanner

/-- What a pattern takes and what it leaves make up the text. -/
def Takes (a : Scanner (List Char)) : Prop :=
  ∀ s taken rest, a s = some (taken, rest) → s = taken ++ rest

variable {a b : Scanner (List Char)}

theorem takes_run (p : Char → Bool) : Takes (run p) := fun _ _ _ h => (run_eq_some.mp h).1

theorem takes_run1 (p : Char → Bool) : Takes (run1 p) := fun _ _ _ h => (run1_eq_some.mp h).2.1

theorem takes_one (p : Char → Bool) : Takes (one p) := by
  intro s taken rest h
  obtain ⟨c, -, rfl, rfl⟩ := one_eq_some.mp h
  rfl

theorem Takes.either (ha : Takes a) (hb : Takes b) : Takes (either a b) := by
  intro s taken rest h
  rcases either_eq_some h with h | h
  · exact ha s taken rest h
  · exact hb s taken rest h

theorem Takes.optional (ha : Takes a) : Takes (optional a) := by
  intro s taken rest h
  rcases optional_eq_some h with h | ⟨-, rfl, rfl⟩
  · exact ha s taken rest h
  · rfl

theorem takes_sequence : ∀ {patterns : List (Scanner (List Char))}, (∀ a ∈ patterns, Takes a) →
    Takes (sequence patterns)
  | [], _ => by
    intro s taken rest h
    obtain ⟨rfl, rfl⟩ := sequence_nil_eq_some.mp h
    rfl
  | a :: more, h => by
    obtain ⟨ha, hmore⟩ := List.forall_mem_cons.mp h
    intro s taken rest h
    obtain ⟨first, between, others, hfirst, hothers, rfl⟩ := sequence_cons_eq_some.mp h
    rw [ha _ _ _ hfirst, takes_sequence hmore _ _ _ hothers, List.append_assoc]

theorem Takes.repeated (ha : Takes a) : Takes (repeated a) := by
  have hmany : ∀ s, s = (many a s).1.flatten ++ (many a s).2 := by
    intro s
    fun_induction many a s with
    | case1 s hnone => rfl
    | case2 s piece rest hsome hshorter pieces last hmany ih =>
      rw [hmany] at ih
      rw [ha _ _ _ hsome, List.flatten_cons, List.append_assoc, ← ih]
    | case3 s piece rest hsome hlonger => rfl
  intro s taken rest h
  obtain ⟨rfl, rfl⟩ := Prod.mk.inj (Option.some.inj h)
  exact hmany s

end Text.Scanner

namespace Text

theorem strip_subset (s : List Char) : strip s ⊆ s := fun _ hc => mem_of_mem_trimWhile hc

/-- What is left of a text without line breaks stands in a table as it is. -/
theorem isFree_strip {s : List Char} (h : '\n' ∉ s) : IsFree (strip s) where
  noBreak hbreak := h (strip_subset s hbreak)
  first := by
    intro c hc
    obtain ⟨dropped, heq, -⟩ := exists_trimEndWhile_append isNoise (s.dropWhile isNoise)
    have hhead : (s.dropWhile isNoise).head? = some c := by
      rw [heq, List.head?_append]
      exact Option.or_eq_some_iff.mpr (.inl hc)
    exact stops_dropWhile s c hhead
  last := by
    intro c hc
    rw [← List.head?_reverse, strip, trimWhile, trimEndWhile, List.reverse_reverse] at hc
    exact stops_dropWhile _ c hc

theorem isFree_nil : IsFree [] := isFree_strip List.not_mem_nil

end Text

/-! ### Lines -/

namespace Line

theorem takes_dice : Takes dice := by
  have hkeep : Takes keepMark := takes_sequence <| by simp [takes_run, takes_one, takes_run1]
  rw [dice_eq]
  exact takes_sequence <| by simp [takes_run, takes_one, takes_run1, hkeep.optional]

theorem takes_formula : Takes formula := by
  have hterm : Takes (either dice (run1 isDecimalDigit)) := takes_dice.either (takes_run1 _)
  have hlink : Takes link := takes_sequence <| by simp [takes_run, takes_one, hterm]
  rw [formula_eq]
  exact takes_sequence <| by simp [takes_dice, hlink.repeated]

/-- What comes after the end of a range is the end of the text. -/
theorem suffix_of_rangeEnd {s last rest : List Char} (h : rangeEnd s = some (last, rest)) :
    rest <:+ s := by
  obtain ⟨⟨dashes, after⟩, hdashes, hlast⟩ := Option.bind_eq_some_iff.mp h
  have htakes : Takes (sequence [run isBlank, run1 isDash, run isBlank]) :=
    takes_sequence <| by simp [takes_run, takes_run1]
  rw [htakes _ _ _ hdashes, takes_run1 _ _ _ _ hlast]
  exact (List.suffix_append last rest).trans (List.suffix_append dashes _)

/-- A description is a piece of the header, on one line and without noise at its ends. -/
theorem description_of_header? {line : List Char} {parts : Header}
    (h : header? line = some parts) :
    parts.description ⊆ line ∧ IsFree parts.description := by
  obtain ⟨⟨notated, rest⟩, hread, h⟩ := Option.bind_eq_some_iff.mp h
  dsimp only at h
  split at h
  · cases h
  · next hbreak =>
    cases h
    have hrest : rest <:+ strip line := ⟨notated, (takes_formula _ _ _ hread).symm⟩
    refine ⟨fun c hc => ?_, isFree_strip (by simpa using hbreak)⟩
    exact strip_subset line (hrest.subset (strip_subset rest hc))

/-- The text of a numbered outcome is a piece of its line, without noise at its ends. -/
theorem text_of_numbered? {line : List Char} {parts : Numbered}
    (h : numbered? line = some parts) : parts.text ⊆ line ∧ IsFree parts.text := by
  obtain ⟨⟨first, s⟩, hfirst, h⟩ := Option.bind_eq_some_iff.mp h
  have hs : s <:+ strip line := ⟨first, (takes_run1 _ _ _ _ hfirst).symm⟩
  have hpiece : ∀ {last? : Option (List Char)} {rest : List Char}, rest <:+ s →
      (if rest.contains '\n' then none else some ⟨first, last?, strip rest⟩) = some parts →
      parts.text ⊆ line ∧ IsFree parts.text := by
    intro last? rest hrest h
    split at h
    · cases h
    · next hbreak =>
      cases h
      refine ⟨fun c hc => ?_, isFree_strip (by simpa using hbreak)⟩
      exact strip_subset line ((hrest.trans hs).subset (strip_subset rest hc))
  dsimp only at h
  split at h
  · next last rest hrange => exact hpiece (suffix_of_rangeEnd hrange) h
  · exact hpiece (List.suffix_refl s) h

/-- The text of an outcome with a bullet is a piece of its line, without noise at its ends. -/
theorem text_of_bulleted? {line text : List Char} (h : bulleted? line = some text) :
    text ⊆ line ∧ IsFree text := by
  obtain ⟨⟨bullet, rest⟩, hread, h⟩ := Option.bind_eq_some_iff.mp h
  have htakes : Takes (sequence [one isBullet, run1 isBlank]) :=
    takes_sequence <| by simp [takes_one, takes_run1]
  have hrest : rest <:+ trim line := ⟨bullet, (htakes _ _ _ hread).symm⟩
  dsimp only at h
  split at h
  · cases h
  · next hbreak =>
    cases h
    refine ⟨fun c hc => mem_of_mem_trimWhile (hrest.subset (strip_subset rest hc)), isFree_strip ?_⟩
    simp only [Bool.or_eq_true, List.contains_eq_mem, decide_eq_true_eq, not_or] at hbreak
    exact hbreak.2

end Line

/-! ### Outcomes -/

namespace Entry

theorem text_of_ofLine? {line : List Char} {e : Entry} (h : ofLine? line = some e) :
    e.text.toList ⊆ line ∧ IsFree e.text.toList := by
  obtain ⟨parts, hparts, h⟩ := Option.bind_eq_some_iff.mp h
  obtain ⟨lo, -, h⟩ := Option.bind_eq_some_iff.mp h
  have htext : e.text = String.ofList parts.text := by
    cases hlast : parts.last? with
    | none =>
      rw [hlast] at h
      cases h
      rfl
    | some last =>
      rw [hlast] at h
      obtain ⟨hi, -, h⟩ := Option.bind_eq_some_iff.mp h
      cases h
      rfl
  rw [htext, String.toList_ofList]
  exact Line.text_of_numbered? hparts

/-- The text of every outcome is a piece of one of the lines, without noise at its ends. -/
theorem text_of_mem_ofLines {low : Int} {body : List (List Char)} {e : Entry}
    (h : e ∈ ofLines low body) :
    (∃ line ∈ body, e.text.toList ⊆ line) ∧ IsFree e.text.toList := by
  unfold ofLines at h
  split at h
  · obtain ⟨⟨text, i⟩, hmem, rfl⟩ := List.mem_map.mp h
    obtain ⟨line, hline, htext⟩ := List.mem_filterMap.mp (List.fst_mem_of_mem_zipIdx hmem)
    obtain ⟨hsubset, hfree⟩ := Line.text_of_bulleted? htext
    simp only [between, String.toList_ofList]
    exact ⟨⟨line, hline, hsubset⟩, hfree⟩
  · obtain ⟨line, hline, he⟩ := List.mem_filterMap.mp h
    obtain ⟨hsubset, hfree⟩ := text_of_ofLine? he
    exact ⟨⟨line, hline, hsubset⟩, hfree⟩

end Entry

/-! ### Inside outcomes -/

theorem takes_wordDice : Takes wordDice := by
  intro s taken rest h
  obtain ⟨⟨plain, left⟩, hplain, h⟩ := Option.bind_eq_some_iff.mp h
  have hplainTakes : Takes (sequence
      [run isDecimalDigit, one Line.isDieLetter, run1 isDecimalDigit]) :=
    takes_sequence <| by simp [takes_run, takes_one, takes_run1]
  have hkeepTakes : Takes (sequence [one Line.isKeepSign, run1 isDecimalDigit]) :=
    takes_sequence <| by simp [takes_one, takes_run1]
  have hs := hplainTakes _ _ _ hplain
  have hshort : (if endsWord left then some (plain, left) else none) = some (taken, rest) →
      s = taken ++ rest := by
    intro h
    split at h
    · cases h
      exact hs
    · cases h
  dsimp only at h
  split at h
  · next keep left' hkeep =>
    split at h
    · cases h
      rw [hs, hkeepTakes _ _ _ hkeep, List.append_assoc]
    · exact hshort h
  · exact hshort h

namespace Trigger

/-- A trigger cuts the text into what comes before it, its dice, and what comes after it. -/
theorem findFrom?_eq_some {trigger : Trigger} : ∀ {s seen : List Char},
    findFrom? seen s = some trigger →
      seen.reverse ++ s = trigger.before ++ (trigger.dice ++ trigger.after)
  | [], seen, h => by cases h
  | c :: rest, seen, h => by
    have hnext : findFrom? (c :: seen) rest = some trigger →
        seen.reverse ++ c :: rest = trigger.before ++ (trigger.dice ++ trigger.after) := by
      intro h
      simpa using findFrom?_eq_some h
    rw [findFrom?] at h
    split at h
    · next dice after hhere =>
      split at h
      · cases h
        have hdice : wordDice (c :: rest) = some (dice, after) := by
          split at hhere
          · exact hhere
          · cases hhere
        rw [takes_wordDice _ _ _ hdice]
      · exact hnext h
    · exact hnext h

theorem find?_eq_some {trigger : Trigger} {s : List Char} (h : find? s = some trigger) :
    s = trigger.before ++ (trigger.dice ++ trigger.after) := by
  simpa using findFrom?_eq_some h

end Trigger

namespace Marker

theorem suffix_of_ending {s taken rest : List Char} (h : ending s = some (taken, rest)) :
    rest <:+ s := by
  have htakes : Takes ending := takes_sequence <| by simp [takes_run, takes_run1]
  exact ⟨taken, (htakes _ _ _ h).symm⟩

/-- A marker is read from the number on, and what comes after it is the end of the text. -/
theorem at?_eq_some {s : List Char} {m : Marker} (h : at? s = some m) :
    m.fromNumber = s ∧ m.after <:+ s := by
  obtain ⟨⟨number, rest⟩, hnumber, h⟩ := Option.bind_eq_some_iff.mp h
  have hrest : rest <:+ s := ⟨number, (takes_run1 _ _ _ _ hnumber).symm⟩
  rcases (Option.orElse_eq_some _ _ _).mp h with h | ⟨-, h⟩
  · obtain ⟨⟨last, left⟩, hrange, h⟩ := Option.bind_eq_some_iff.mp h
    obtain ⟨⟨marks, after⟩, hending, h⟩ := Option.bind_eq_some_iff.mp h
    cases h
    exact ⟨rfl, (suffix_of_ending hending).trans ((Line.suffix_of_rangeEnd hrange).trans hrest)⟩
  · obtain ⟨⟨marks, after⟩, hending, h⟩ := Option.bind_eq_some_iff.mp h
    cases h
    exact ⟨rfl, (suffix_of_ending hending).trans hrest⟩

/-- Markers in a text, each behind what the one before it took. -/
inductive Follow : List Char → List Marker → Prop
  /-- No marker at all. -/
  | nil (s : List Char) : Follow s []
  /-- A marker, and more markers in the text after it. -/
  | cons {s : List Char} {m : Marker} {more : List Marker} (fromNumber : m.fromNumber <:+ s)
    (after : m.after <:+ m.fromNumber) (follow : Follow m.after more) : Follow s (m :: more)

namespace Follow

variable {s s' : List Char} {m : Marker} {markers more : List Marker}

theorem of_suffix (h : Follow s markers) (hs : s <:+ s') : Follow s' markers := by
  cases h with
  | nil => exact .nil s'
  | cons fromNumber after follow => exact .cons (fromNumber.trans hs) after follow

theorem of_at? (h : at? s = some m) (hmore : Follow m.after more) : Follow s (m :: more) := by
  obtain ⟨hfrom, hafter⟩ := at?_eq_some h
  rw [← hfrom] at hafter
  exact .cons (hfrom ▸ List.suffix_rfl) hafter hmore

/-- A marker leaves the end of the text, and more markers are found there. -/
theorem suffix_of_cons (h : Follow s (m :: more)) : m.after <:+ s ∧ Follow m.after more := by
  cases h with
  | cons fromNumber after follow => exact ⟨after.trans fromNumber, follow⟩

theorem suffix_of_mem : ∀ {markers : List Marker} {s : List Char}, Follow s markers →
    ∀ m ∈ markers, m.after <:+ s
  | [], _, _, _, hm => by cases hm
  | first :: more, _, h, m, hm => by
    obtain ⟨hfirst, hmore⟩ := h.suffix_of_cons
    rcases List.mem_cons.mp hm with rfl | hm
    · exact hfirst
    · exact (hmore.suffix_of_mem m hm).trans hfirst

/-- The markers after an item are those of the text after its body. -/
theorem exists_body_append (h : Follow m.after more) :
    ∃ left, m.after = m.body more ++ left ∧ Follow left more := by
  cases h with
  | nil => exact ⟨[], (List.append_nil _).symm, .nil []⟩
  | @cons _ next _ fromNumber after follow =>
    obtain ⟨body, hbody⟩ := fromNumber
    refine ⟨next.fromNumber, ?_, .cons List.suffix_rfl after follow⟩
    have hlength : m.after.length - next.fromNumber.length = body.length := by
      rw [← hbody, List.length_append, Nat.add_sub_cancel]
    rw [Marker.body, hlength, ← hbody, List.take_left]

end Follow

theorem follow_findFrom (s : List Char) : Follow s (findFrom s) := by
  fun_induction findFrom s with
  | case1 => exact .nil []
  | case2 c rest hword ih => exact ih.of_suffix (List.suffix_cons c rest)
  | case3 c rest hword hnone ih => exact ih.of_suffix (List.suffix_cons c rest)
  | case4 c rest hword m hm hshorter ih =>
    exact (Follow.of_at? hm ih).of_suffix (List.suffix_cons c rest)
  | case5 c rest hword m hm hlonger ih => exact ih.of_suffix (List.suffix_cons c rest)

theorem follow_findAll (s : List Char) : Follow s (findAll s) := by
  unfold findAll
  split
  · exact follow_findFrom s
  · next m hm => exact .of_at? hm (follow_findFrom m.after)

theorem body_subset (m : Marker) (next : List Marker) : m.body next ⊆ m.after := by
  cases next with
  | nil => exact List.Subset.refl _
  | cons n next => exact List.take_subset _ _

end Marker

namespace Table

/-- Between line breaks the texts of items are free of noise at their ends. -/
theorem isFree_of_mem_inlineEntries : ∀ {markers : List Marker}, (∀ m ∈ markers, '\n' ∉ m.after) →
    ∀ e ∈ inlineEntries markers, IsFree e.text.toList
  | [], _, e, he => by cases he
  | m :: more, h, e, he => by
    obtain ⟨hm, hmore⟩ := List.forall_mem_cons.mp h
    have hbody : '\n' ∉ m.body more := fun hbreak => hm (m.body_subset more hbreak)
    rw [inlineEntries] at he
    split at he
    · exact isFree_of_mem_inlineEntries hmore e he
    · dsimp only at he
      split at he
      · obtain rfl := List.mem_singleton.mp he
        simpa [Entry.between] using isFree_strip hm
      · rcases List.mem_cons.mp he with rfl | he
        · simpa [Entry.between] using isFree_strip hbody
        · exact isFree_of_mem_inlineEntries hmore e he

/-- The description and the outcomes are on one line each, without noise at their ends. -/
structure Tidy (t : Table) : Prop where
  description_free : IsFree t.description.toList
  entry_free : ∀ e ∈ t.entries, IsFree e.text.toList

variable {t inner : Table} {limits : Limits}

theorem find?_of_trigger? {e : Entry} {trigger : Trigger} (h : t.trigger? e = some trigger) :
    Trigger.find? e.text.toList = some trigger := by
  unfold trigger? at h
  split at h
  · exact h
  · cases h

theorem tidy_of_build {header : List Char} {body : List (List Char)}
    (h : build header body limits = .ok t) : t.Tidy := by
  obtain ⟨parts, hparts, -, hdescription, hentries, -, -⟩ := build_eq_ok h
  refine ⟨?_, fun e he => ?_⟩
  · rw [hdescription, String.toList_ofList]
    exact (Line.description_of_header? hparts).2
  · rw [hentries] at he
    exact (Entry.text_of_mem_ofLines he).2

/-- A table inside an outcome has no description. -/
theorem description_of_inline? {tail : List Char} {depth : Nat}
    (h : inline? tail depth limits = some t) : t.description = String.ofList [] := by
  obtain ⟨⟨dice, rest⟩, -, h⟩ := Option.bind_eq_some_iff.mp h
  obtain ⟨expr, -, h⟩ := Option.bind_eq_some_iff.mp h
  dsimp only at h
  split at h
  · cases h
  · exact (ofParts_eq_ok (toOption_eq_some.mp h)).1

theorem tidy_of_inline? {tail : List Char} {depth : Nat} (htail : '\n' ∉ tail)
    (h : inline? tail depth limits = some t) : t.Tidy := by
  refine ⟨?_, fun e he => ?_⟩
  · rw [description_of_inline? h, String.toList_ofList]
    exact isFree_nil
  · obtain ⟨dice, rest, hdice, -, hentries, -⟩ := inline?_eq_some h
    rw [hentries] at he
    have hrest : rest <:+ tail := ⟨dice, (takes_wordDice _ _ _ hdice).symm⟩
    refine isFree_of_mem_inlineEntries (fun m hm hbreak => htail ?_) e he
    exact hrest.subset (((Marker.follow_findAll rest).suffix_of_mem m hm).subset hbreak)

/-- A table inside an outcome is as tidy as the one around it. -/
theorem Tidy.subtable {e : Entry} (h : t.Tidy) (he : e ∈ t.entries)
    (hsub : t.subtable? e = some inner) : inner.Tidy := by
  obtain ⟨trigger, htrigger, hinline⟩ := Option.bind_eq_some_iff.mp hsub
  refine tidy_of_inline? (fun hbreak => (h.entry_free e he).noBreak ?_) hinline
  rw [Trigger.find?_eq_some (find?_of_trigger? htrigger)]
  exact List.mem_append_right trigger.before hbreak

/-- The text that is shown of an outcome is on one line, without noise at its ends. -/
theorem Tidy.label_free {e : Entry} (h : t.Tidy) (he : e ∈ t.entries) :
    IsFree (t.label e).toList := by
  unfold label
  split
  · next trigger _ htrigger _ =>
    rw [String.toList_ofList]
    refine isFree_strip fun hbreak => (h.entry_free e he).noBreak ?_
    rw [Trigger.find?_eq_some (find?_of_trigger? htrigger)]
    exact List.mem_append_left _ hbreak
  · exact h.entry_free e he

end Table

end DiceTables
