import DiceTables.Proofs.Arithmetic
import DiceTables.Proofs.Excerpts
import DiceTables.Proofs.Locating
import Mathlib.Data.List.Count

/-!
Enumerations with bullets. Each line after a header is looked at three times, for a header, for a
numbered outcome and for a bullet, and each time without other ends of it. A text after a bullet that
has no digit in front is never taken for a numbered outcome, but it is taken for a header if dice
stand in front of it, bullet or not. The main statement is that a header and lines with bullets are
found as one table with an outcome for each bullet, unless one of the texts starts with dice.
-/

namespace DiceTables

open Text Scanner

variable {limits : Limits}

/-! ### Trimmed lines -/

namespace Line

theorem isHeader_trim (line : List Char) : isHeader (trim line) = isHeader line := by
  rw [isHeader, header?_trim, isHeader]

theorem bulleted?_trim (line : List Char) : bulleted? (trim line) = bulleted? line := by
  rw [bulleted?, trim_trim, bulleted?]

end Line

theorem Table.build_trim (header : List Char) (body : List (List Char)) :
    build (trim header) body limits = build header body limits := by
  rw [build, Line.header?_trim, trim_trim, build]

theorem Table.isHeader_of_build {header : List Char} {body : List (List Char)} {t : Table}
    (h : build header body limits = .ok t) : Line.isHeader header = true := by
  obtain ⟨parts, hparts, -⟩ := build_eq_ok h
  rw [Line.isHeader, hparts]
  rfl

/-! ### Lines with a bullet -/

/-- A line with a bullet. -/
def bulletLine (text : List Char) : List Char := '-' :: ' ' :: text

/-- A text that can stand after a bullet: on one line, with something on it that is no noise, and with
no digit in front. -/
structure IsBulletText (text : List Char) : Prop where
  noBreak : '\n' ∉ text
  solid : ∃ c ∈ text, isNoise c = false
  noDigit : Stops isDecimalDigit (strip text)

theorem isBulletText_iff {text : List Char} : IsBulletText text ↔ '\n' ∉ text ∧
    text.any (!isNoise ·) = true ∧ (strip text).head?.all (!isDecimalDigit ·) = true := by
  simp only [List.any_eq_true, Option.all_eq_true, Bool.not_eq_true']
  constructor
  · intro h
    exact ⟨h.noBreak, h.solid, h.noDigit⟩
  · rintro ⟨hbreak, hsolid, hdigit⟩
    exact ⟨hbreak, hsolid, hdigit⟩

instance (text : List Char) : Decidable (IsBulletText text) :=
  decidable_of_iff _ isBulletText_iff.symm

/-- Whether a text starts with the letter of a die and a digit. -/
def startsDie : List Char → Bool
  | letter :: digit :: _ => Line.isDieLetter letter && isDecimalDigit digit
  | _ => false

theorem strip_bulletLine (text : List Char) : strip (bulletLine text) = strip text := by
  have hnoise : ∀ c ∈ ['-', ' '], isNoise c = true := List.all_eq_true.mp rfl
  exact trimWhile_append_left hnoise text

namespace Line

/-- Where no digit is in front, the letter of a die and a digit are all it takes for notation. -/
theorem isSome_formula {s : List Char} (h : Stops isDecimalDigit s) :
    (formula s).isSome = startsDie s := by
  have hrun : run isDecimalDigit s = some ([], s) := run_eq_some.mpr ⟨rfl, by simp, h⟩
  have hkeep : ∀ rest, ∃ kept, optional keepMark rest = some kept := by
    intro rest
    rw [Scanner.optional]
    cases keepMark rest <;> simp
  rw [formula_eq, dice_eq, Scanner.sequence, Scanner.sequence, hrun]
  rcases s with _ | ⟨letter, _ | ⟨digit, rest⟩⟩
  · rfl
  · cases hdie : isDieLetter letter <;> simp [Scanner.sequence, Scanner.one, hdie, run1, startsDie]
  · cases hdie : isDieLetter letter
    · simp [Scanner.sequence, Scanner.one, hdie, startsDie]
    · cases hdigit : isDecimalDigit digit
      · simp [Scanner.sequence, Scanner.one, hdie, hdigit, run1, startsDie]
      · obtain ⟨kept, hkept⟩ := hkeep (rest.dropWhile isDecimalDigit)
        simp [Scanner.sequence, Scanner.one, hdie, hdigit, run1, hkept, repeated, startsDie]

theorem isHeader_eq {line : List Char} (h : '\n' ∉ line) :
    isHeader line = (formula (strip line)).isSome := by
  rw [isHeader, header?]
  cases hread : formula (strip line) with
  | none => rfl
  | some found =>
    have hbreak : '\n' ∉ found.2 := by
      intro hmem
      refine h (strip_subset line ?_)
      rw [takes_formula _ _ _ hread]
      exact List.mem_append_right _ hmem
    simp [hbreak]

/-- A line with a bullet is a header exactly if the text after the bullet starts with dice. -/
theorem isHeader_bulletLine {text : List Char} (h : IsBulletText text) :
    isHeader (bulletLine text) = startsDie (strip text) := by
  have hbreak : '\n' ∉ bulletLine text := by simpa [bulletLine] using h.noBreak
  rw [isHeader_eq hbreak, strip_bulletLine, isSome_formula h.noDigit]

theorem ofLine?_bulletLine {text : List Char} (h : IsBulletText text) :
    Entry.ofLine? (bulletLine text) = none := by
  rw [Entry.ofLine?, numbered?, strip_bulletLine, run1_eq_none h.noDigit]
  rfl

/-- The text after a bullet is read without the noise around it. -/
theorem bulleted?_bulletLine {text : List Char} (h : IsBulletText text) :
    bulleted? (bulletLine text) = some (strip text) := by
  obtain ⟨c, hc, hnoise⟩ := h.solid
  have hblank : isBlank c = false :=
    Bool.eq_false_iff.mpr fun hblank => by simp [isNoise_of_isBlank hblank] at hnoise
  have htrim : trim (bulletLine text) = '-' :: ' ' :: trimEndWhile isBlank text :=
    trimEndWhile_append ⟨c, hc, hblank⟩ ['-', ' ']
  obtain ⟨dropped, htext, hdropped⟩ := exists_trimEndWhile_append isBlank text
  obtain ⟨blanks, rest, hrun⟩ : ∃ blanks rest, run isBlank (trimEndWhile isBlank text) =
    some (blanks, rest) := ⟨_, _, rfl⟩
  obtain ⟨hsplit, hblanks, hrest⟩ := run_eq_some.mp hrun
  rw [hsplit] at htrim htext
  have hread : sequence [one isBullet, run1 isBlank] (trim (bulletLine text)) =
      some ('-' :: ' ' :: blanks, rest) := by
    have hbullet : one isBullet ('-' :: ' ' :: (blanks ++ rest)) =
        some (['-'], ' ' :: (blanks ++ rest)) := one_eq_some.mpr ⟨'-', rfl, rfl, rfl⟩
    have hspace : run1 isBlank (' ' :: (blanks ++ rest)) = some (' ' :: blanks, rest) :=
      run1_eq_some.mpr ⟨by simp, rfl, List.forall_mem_cons.mpr ⟨rfl, hblanks⟩, hrest⟩
    simp [htrim, Scanner.sequence, hbullet, hspace]
  have hstrip : strip rest = strip text := by
    rw [htext, List.append_assoc, strip, strip,
      trimWhile_append_left fun c hc => isNoise_of_isBlank (hblanks c hc),
      trimWhile_append_of_forall _ fun c hc => isNoise_of_isBlank (hdropped c hc)]
  have hne : rest ≠ [] := by
    rintro rfl
    have hmem : c ∈ strip text := mem_trimWhile hc hnoise
    rw [← hstrip] at hmem
    cases hmem
  have hbreak : '\n' ∉ rest := by
    intro hmem
    refine h.noBreak ?_
    rw [htext]
    simp [hmem]
  rw [bulleted?, hread]
  simp [hne, hbreak, hstrip]

end Line

/-! ### Outcomes of an enumeration -/

namespace Entry

/-- Lines with bullets are counted up, whatever number stands further inside their texts. -/
theorem ofLines_bulletLine (low : Int) {texts : List (List Char)}
    (h : ∀ text ∈ texts, IsBulletText text) :
    ofLines low (texts.map fun text => trim (bulletLine text)) =
      enumerate low (texts.map strip) := by
  have hnumbered : (texts.map fun text => trim (bulletLine text)).filterMap ofLine? = [] := by
    rw [List.filterMap_map, List.filterMap_eq_nil_iff]
    intro text htext
    rw [Function.comp_apply, ofLine?_trim, Line.ofLine?_bulletLine (h text htext)]
  have hbulleted : (texts.map fun text => trim (bulletLine text)).filterMap Line.bulleted? =
      texts.map strip := by
    rw [List.filterMap_map, ← List.filterMap_eq_map]
    refine List.filterMap_congr fun text htext => ?_
    rw [Function.comp_apply, Line.bulleted?_trim, Line.bulleted?_bulletLine (h text htext)]
    rfl
  rw [ofLines, hnumbered, hbulleted]

theorem length_enumerate (low : Int) (texts : List (List Char)) :
    (enumerate low texts).length = texts.length := by
  rw [enumerate, List.length_map, List.length_zipIdx]

theorem getElem?_enumerate (low : Int) {texts : List (List Char)} {i : Nat} {text : List Char}
    (h : texts[i]? = some text) : (enumerate low texts)[i]? =
      some (between (Whole.addClamped low i) (Whole.addClamped low i) text) := by
  rw [enumerate, List.getElem?_map, List.getElem?_zipIdx, h]
  simp

theorem length_ofLines_le (low : Int) (body : List (List Char)) :
    (ofLines low body).length ≤ body.length := by
  unfold ofLines
  split
  · rw [length_enumerate]
    exact List.length_filterMap_le _ _
  · exact List.length_filterMap_le _ _

end Entry

/-- The outcomes of a table are the texts of a list, in order, each with one number, counting up from
the least value. Numbers beyond 64 bits are left open. -/
structure Table.Enumerates (t : Table) (texts : List (List Char)) : Prop where
  length_eq : t.entries.length = texts.length
  each : ∀ (i : Nat) text, texts[i]? = some text → ∃ e, t.entries[i]? = some e ∧
    e.text = String.ofList (strip text) ∧
      (Whole.Fits (t.low + i) → e.lo = t.low + i ∧ e.hi = t.low + i)

theorem Table.enumerates_of_entries {t : Table} {texts : List (List Char)}
    (h : t.entries = Entry.enumerate t.low (texts.map strip)) : t.Enumerates texts where
  length_eq := by rw [h, Entry.length_enumerate, List.length_map]
  each := by
    intro i text htext
    have hstrip : (texts.map strip)[i]? = some (strip text) := by
      rw [List.getElem?_map, htext]
      rfl
    refine ⟨_, (congrArg (·[i]?) h).trans (Entry.getElem?_enumerate t.low hstrip), rfl, ?_⟩
    intro hfits
    simp [Entry.between, Whole.addClamped_of_fits hfits]

/-! ### Enumerations in a text -/

namespace Block

/-- A block has no more lines after its header than the text has lines that are no headers. -/
theorem length_body_le {b : Block} {ls : List (List Char)} {passed : Nat}
    (h : b ∈ locateFrom passed ls) : b.body.length ≤ ls.countP (!Line.isHeader ·) := by
  induction ls generalizing passed with
  | nil => cases h
  | cons line rest ih =>
    have hcount : rest.countP (!Line.isHeader ·) ≤ (line :: rest).countP (!Line.isHeader ·) :=
      (List.sublist_cons_self line rest).countP_le
    rw [locateFrom] at h
    split at h
    · rcases List.mem_cons.mp h with rfl | h
      · have hplain : ∀ l ∈ rest.takeWhile (!Line.isHeader ·), (!Line.isHeader l) = true :=
          fun _ hl => by simpa using List.mem_takeWhile_imp hl
        obtain ⟨more, heq, -⟩ :=
          exists_upToLastOutcome_append (rest.takeWhile (!Line.isHeader ·))
        calc (upToLastOutcome (rest.takeWhile (!Line.isHeader ·))).length
            ≤ (rest.takeWhile (!Line.isHeader ·)).length := by
              rw [congrArg List.length heq, List.length_append]
              exact Nat.le_add_right _ _
          _ = (rest.takeWhile (!Line.isHeader ·)).countP (!Line.isHeader ·) :=
              (List.countP_eq_length.mpr hplain).symm
          _ ≤ rest.countP (!Line.isHeader ·) := (List.takeWhile_sublist _).countP_le
          _ ≤ _ := hcount
      · exact (ih h).trans hcount
    · exact (ih h).trans hcount

end Block

/-- A header is no outcome of any table. -/
theorem Table.length_entries_le {t : Table} {s : List Char} (h : t ∈ allIn s limits) :
    t.entries.length ≤ (solidLines s).countP (!Line.isHeader ·) := by
  obtain ⟨b, hb, htable⟩ := List.mem_filterMap.mp h
  obtain ⟨-, -, -, -, hentries, -⟩ := build_eq_ok (toOption_eq_some.mp htable)
  rw [hentries]
  exact (Entry.length_ofLines_le _ _).trans (Block.length_body_le hb)

/-- A header and lines with bullets, as a text. -/
def bulletList (header : List Char) (texts : List (List Char)) : List Char :=
  joinLines (header :: texts.map bulletLine)

theorem solidLines_bulletList {header : List Char} {texts : List (List Char)}
    (hbreak : '\n' ∉ header) (hheader : Line.isHeader header = true)
    (htexts : ∀ text ∈ texts, IsBulletText text) :
    solidLines (bulletList header texts) =
      trim header :: texts.map fun text => trim (bulletLine text) := by
  have hnoBreak : ∀ l ∈ header :: texts.map bulletLine, '\n' ∉ l := by
    refine List.forall_mem_cons.mpr ⟨hbreak, List.forall_mem_map.mpr fun text htext => ?_⟩
    simpa [bulletLine] using (htexts text htext).noBreak
  -- an empty line is neither a header nor has it a bullet
  have hne : trim header ≠ [] := trim_ne_nil Line.header?_trim rfl hheader
  have hbullet : ∀ text ∈ texts, trim (bulletLine text) ≠ [] := by
    intro text htext
    refine trim_ne_nil Line.bulleted?_trim rfl ?_
    rw [Line.bulleted?_bulletLine (htexts text htext)]
    rfl
  have hkept : ∀ l ∈ trim header :: texts.map fun text => trim (bulletLine text),
      (!l.isEmpty) = true := by
    refine List.forall_mem_cons.mpr ⟨by simpa using hne, List.forall_mem_map.mpr ?_⟩
    exact fun text htext => by simpa using hbullet text htext
  rw [bulletList, solidLines_joinLines hnoBreak, List.map_cons, List.map_map]
  exact List.filter_eq_self.mpr hkept

/-- A header that makes a table makes one of the bullets after it, if none of their texts starts with
dice. -/
theorem exists_allIn_bulletList {header : List Char} {body : List (List Char)} {t₀ : Table}
    {texts : List (List Char)} (hbreak : '\n' ∉ header)
    (hbuild : Table.build header body limits = .ok t₀) (hne : texts ≠ [])
    (htexts : ∀ text ∈ texts, IsBulletText text)
    (hplain : ∀ text ∈ texts, startsDie (strip text) = false) :
    ∃ t, Table.allIn (bulletList header texts) limits = [t] ∧ t.expr = t₀.expr ∧
      t.description = t₀.description ∧ t.Enumerates texts := by
  obtain ⟨parts, hparts, hread, hdescription, -⟩ := Table.build_eq_ok hbuild
  have hheader := Table.isHeader_of_build hbuild
  have houtcomes : ∀ low, Entry.ofLines low (texts.map fun text => trim (bulletLine text)) ≠ [] := by
    intro low
    rw [Entry.ofLines_bulletLine low htexts, ← List.length_pos_iff, Entry.length_enumerate,
      List.length_map, List.length_pos_iff]
    exact hne
  obtain ⟨t, ht⟩ := Table.exists_build hparts hread t₀.domain_eq (houtcomes _)
  obtain ⟨parts', hparts', hread', hdescription', hentries, -⟩ := Table.build_eq_ok ht
  obtain rfl := Option.some.inj (hparts.symm.trans hparts')
  refine ⟨t, ?_, Except.ok.inj (hread'.symm.trans hread), by rw [hdescription', hdescription], ?_⟩
  · have hbullets : ∀ line ∈ texts.map fun text => trim (bulletLine text),
        Line.isHeader line = false := by
      refine List.forall_mem_map.mpr fun text htext => ?_
      rw [Line.isHeader_trim, Line.isHeader_bulletLine (htexts text htext), hplain text htext]
    have hblock := Block.locateFrom_segment 0 ((Line.isHeader_trim header).trans hheader) hbullets
      (Stops.nil : Stops (!Line.isHeader ·) [])
    have htable : Table.build (trim header)
        (Block.upToLastOutcome (texts.map fun text => trim (bulletLine text))) limits = .ok t := by
      rw [Table.build_upToLastOutcome, Table.build_trim, ht]
    rw [List.append_nil] at hblock
    rw [Table.allIn, Block.locate, solidLines_bulletList hbreak hheader htexts, hblock]
    simp [Block.locateFrom, Block.table, htable, Except.toOption]
  · exact Table.enumerates_of_entries (by rw [hentries, Entry.ofLines_bulletLine _ htexts])

/-- A header that makes a table, and a list of texts after bullets. The text of these lines holds just
one table, which has an outcome for each bullet, exactly if no text after a bullet starts with dice:
such a text would open a table of its own. -/
theorem bullets_are_one_table {header : List Char} {body : List (List Char)} {t₀ : Table}
    {texts : List (List Char)} (hbreak : '\n' ∉ header)
    (hbuild : Table.build header body limits = .ok t₀) (hne : texts ≠ [])
    (htexts : ∀ text ∈ texts, IsBulletText text) :
    (∃ t, Table.allIn (bulletList header texts) limits = [t] ∧ t.expr = t₀.expr ∧
      t.description = t₀.description ∧ t.Enumerates texts) ↔
        ∀ text ∈ texts, startsDie (strip text) = false := by
  constructor
  · rintro ⟨t, ht, -, -, hlist⟩ text htext
    refine Bool.eq_false_iff.mpr fun hdice => ?_
    have hheader := Table.isHeader_of_build hbuild
    have hle : t.entries.length ≤ (solidLines (bulletList header texts)).countP
        (!Line.isHeader ·) := Table.length_entries_le (by rw [ht]; exact List.mem_singleton_self t)
    -- neither the header nor the line with dice can become an outcome
    have hcount : (solidLines (bulletList header texts)).countP (!Line.isHeader ·) =
        texts.countP fun text => !Line.isHeader (bulletLine text) := by
      rw [solidLines_bulletList hbreak hheader htexts]
      simp [List.countP_map, Function.comp_def, Line.isHeader_trim, hheader]
    have hlt : texts.countP (fun text => !Line.isHeader (bulletLine text)) < texts.length := by
      have hopens := (Line.isHeader_bulletLine (htexts text htext)).trans hdice
      exact List.countP_lt_length_iff.mpr ⟨text, htext, by rw [hopens]; rfl⟩
    have hlength := hlist.length_eq
    omega
  · exact exists_allIn_bulletList hbreak hbuild hne htexts

/-- Noise before a text and dice further inside it, and texts that only look like notation. -/
theorem loot_is_one_table :
    let texts := ["**gold**, d6 coins".toList, "d for dwarf".toList, "half of 2d4".toList]
    String.ofList (bulletList "*2d2 Loot*".toList texts) =
      "*2d2 Loot*\n- **gold**, d6 coins\n- d for dwarf\n- half of 2d4" ∧
    ∃ t, Table.allIn (bulletList "*2d2 Loot*".toList texts) {} = [t] ∧ t.Enumerates texts := by
  intro texts
  have hbuild : (Table.build "*2d2 Loot*".toList ["2 gold".toList] {}).toOption.isSome = true := by
    decide +kernel
  obtain ⟨t₀, ht₀⟩ := Option.isSome_iff_exists.mp hbuild
  have htexts : ∀ text ∈ texts, IsBulletText text := by decide +kernel
  have hplain : ∀ text ∈ texts, startsDie (strip text) = false := by decide +kernel
  obtain ⟨t, ht, -, -, hlist⟩ := (bullets_are_one_table (by decide) (toOption_eq_some.mp ht₀)
    (by decide) htexts).mpr hplain
  exact ⟨by decide +kernel, t, ht, hlist⟩

/-- Dice after a bullet open a table of their own, which takes the bullets that follow. -/
theorem dice_after_bullet :
    let texts := ["d6 coins".toList, "nothing".toList]
    (∃ body t, Table.build "d2 Loot".toList body {} = .ok t) ∧
    (∀ text ∈ texts, IsBulletText text) ∧
    ¬ ∃ t, Table.allIn (bulletList "d2 Loot".toList texts) {} = [t] ∧ t.Enumerates texts := by
  intro texts
  have hbuild : (Table.build "d2 Loot".toList ["1 gold".toList] {}).toOption.isSome = true := by
    decide +kernel
  obtain ⟨t₀, ht₀⟩ := Option.isSome_iff_exists.mp hbuild
  have hfound : (Table.allIn (bulletList "d2 Loot".toList texts) {}).map
      (fun t => (t.text, t.entries.length)) = [("d6 coins", 1)] := by decide +kernel
  refine ⟨⟨_, t₀, toOption_eq_some.mp ht₀⟩, by decide +kernel, ?_⟩
  rintro ⟨t, ht, hlist⟩
  rw [ht, List.map_singleton] at hfound
  have hlength : t.entries.length = 1 := congrArg Prod.snd (List.singleton_inj.mp hfound)
  rw [hlist.length_eq] at hlength
  cases hlength

end DiceTables
