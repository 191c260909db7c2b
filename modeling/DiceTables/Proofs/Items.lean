import DiceTables.Proofs.Pieces
import DiceTables.Proofs.Triggers

/-!
The items of a table inside an outcome. Each marker stands behind what the one before it took, and
the text of an item ends where the number of the next one starts, so the texts of the outcomes are
pieces of what comes after the dice, in their order and apart from one another. An item whose text
triggers a table takes all that is left, so it is the last.

Whether an item does so is decided before the noise around its text is dropped, and what is dropped
may be part of a word: `fire d4_` has no dice in it, but `fire d4` has. A piece of a text can have
such dice only at its very end. Then no items come after them, and so there is no table.
-/

namespace DiceTables

open Text Scanner

/-- The end of a text, without noise around it, is a piece of the text. -/
theorem Text.holds_strip (front s : List Char) :
    Holds [String.ofList (strip s)] (String.ofList (front ++ s)) := by
  obtain ⟨before, after, heq⟩ := strip_infix s
  have htext : String.ofList (front ++ s) = String.ofList front ++
      (String.ofList before ++ String.ofList (strip s) ++ String.ofList after) := by
    rw [← String.ofList_append, ← String.ofList_append, heq, String.ofList_append]
  rw [htext]
  exact (((holds_singleton _).after _).before _).after _

/-! ### Dice in a piece of a text -/

namespace Trigger

/-- A piece of a text without a trigger has one at most at its end. Elsewhere the same characters
stand around the dice: the cut makes no boundary in front of them, as there is a letter or a digit
between. -/
theorem after_eq_nil_of_isInfix {piece s : List Char} {m : Trigger} (hpiece : piece <:+: s)
    (hnone : find? s = none) (h : find? piece = some m) : m.after = [] := by
  obtain ⟨front, back, rfl⟩ := hpiece
  have hfirst := find?_isFirst h
  have hbefore : m.before ≠ [] := by
    intro hnil
    have hletter := hfirst.allowed_before
    rw [hnil] at hletter
    cases hletter
  by_contra hafter
  have hopens : endsWord (front ++ m.before).reverse = true := by
    rw [List.reverse_append, endsWord_append (List.reverse_ne_nil_iff.mpr hbefore)]
    exact (matches_iff.mp hfirst.toMatches).2.1
  have hcloses : endsWord (m.after ++ back) = true := by
    rw [endsWord_append hafter]
    exact (isBoundary_after hfirst.group _ _).symm.trans hfirst.closes
  have hoccurs : Occurs (front ++ piece ++ back) ⟨front ++ m.before, m.dice, m.after ++ back⟩ :=
    { cut := by simp [hfirst.cut, tail]
      group := hfirst.group
      opens := (isBoundary_before hfirst.group _ _).trans hopens
      closes := (isBoundary_after hfirst.group _ _).trans hcloses }
  have hletter := hoccurs.any_isAlphanumeric_of_find? hnone
  rw [List.any_append, hfirst.allowed_before, Bool.or_true] at hletter
  cases hletter

end Trigger

/-! ### Outcomes -/

/-- The text of the outcome is what is left, without noise around it, of a piece that triggers
nothing. -/
def Entry.IsPlain (e : Entry) : Prop :=
  ∃ piece, e.text.toList = strip piece ∧ Trigger.find? piece = none

namespace Table

variable {limits : Limits} {t : Table} {e : Entry}

/-- The texts of the items are pieces of the text that their markers were found in. -/
theorem holds_inlineEntries : ∀ {markers : List Marker} {s : List Char}, Marker.Follow s markers →
    Holds ((inlineEntries markers).map Entry.text) (String.ofList s)
  | [], _, _ => trivial
  | m :: more, s, h => by
    obtain ⟨⟨front, rfl⟩, hmore⟩ := h.suffix_of_cons
    rw [inlineEntries]
    split
    · -- the marker opens no item
      rw [String.ofList_append]
      exact (holds_inlineEntries hmore).after _
    · dsimp only
      split
      · -- the item takes all that is left
        exact holds_strip front m.after
      · -- more items are read from what comes after the body of this one
        obtain ⟨left, hafter, hleft⟩ := hmore.exists_body_append
        rw [hafter, ← List.append_assoc, String.ofList_append]
        exact (holds_strip front (m.body more)).append (holds_inlineEntries hleft)

/-- The items are plain up to one, if there is one, that takes all that is left. -/
theorem exists_inlineEntries_eq (markers : List Marker) :
    ∃ plain nesting?, inlineEntries markers = plain ++ Option.toList nesting? ∧
      (∀ e ∈ plain, e.IsPlain) ∧ ∀ e ∈ nesting?, ∃ m ∈ markers, e.text.toList = strip m.after := by
  fun_induction inlineEntries markers with
  | case1 => exact ⟨[], none, rfl, by simp, by simp⟩
  | case2 m more hnumber ih =>
    obtain ⟨plain, nesting?, heq, hplain, hnesting⟩ := ih
    refine ⟨plain, nesting?, heq, hplain, fun e he => ?_⟩
    obtain ⟨m', hm', htext⟩ := hnesting e he
    exact ⟨m', List.mem_cons_of_mem m hm', htext⟩
  | case3 m more lo hnumber hi trigger htrigger =>
    refine ⟨[], some (.between lo hi (strip m.after)), rfl, by simp, ?_⟩
    rintro _ ⟨⟩
    exact ⟨m, List.mem_cons_self, String.toList_ofList⟩
  | case4 m more lo hnumber hi hnone ih =>
    obtain ⟨plain, nesting?, heq, hplain, hnesting⟩ := ih
    refine ⟨.between lo hi (strip (m.body more)) :: plain, nesting?, by rw [heq]; rfl, ?_, ?_⟩
    · exact List.forall_mem_cons.mpr ⟨⟨m.body more, String.toList_ofList, hnone⟩, hplain⟩
    · intro e he
      obtain ⟨m', hm', htext⟩ := hnesting e he
      exact ⟨m', List.mem_cons_of_mem m hm', htext⟩

/-- A plain outcome has no table inside it: dropping noise can only have made dice of it at its end. -/
theorem subtable?_eq_none_of_isPlain (t : Table) (h : e.IsPlain) : t.subtable? e = none := by
  obtain ⟨piece, htext, hnone⟩ := h
  refine Option.eq_none_iff_forall_ne_some.mpr fun inner hinner => ?_
  obtain ⟨trigger, htrigger, -⟩ := Option.bind_eq_some_iff.mp hinner
  have hfind := find?_of_trigger? htrigger
  rw [htext] at hfind
  have hpiece : strip piece <:+: piece := strip_infix piece
  have hafter := Trigger.after_eq_nil_of_isInfix hpiece hnone hfind
  obtain ⟨expr, -, htwo, -⟩ := (subtable?_eq_some_iff htrigger).mp hinner
  rw [hafter] at htwo
  simp [Marker.findAll, Marker.findFrom, Marker.at?, run1, inlineEntries] at htwo

/-- Tables inside outcomes nest only to the right. In a table that lies inside an outcome no outcome
but the last has a table inside it, and the text of that one goes on to the end. The texts of the
outcomes are pieces of what comes after the dice, in their order, none overlapping the one before
it. -/
theorem nests_only_to_the_right {tail : List Char} {depth : Nat}
    (h : inline? tail depth limits = some t) :
    (∀ e ∈ t.entries.dropLast, t.subtable? e = none) ∧
    ∃ dice rest, Trigger.IsFirst (fun _ => True) tail ⟨[], dice, rest⟩ ∧
      Expr.ofNotation dice limits = .ok t.expr ∧
      Holds (t.entries.map Entry.text) (String.ofList rest) ∧
      ∀ e ∈ t.entries, t.subtable? e ≠ none → ∃ after, after <:+ rest ∧ e.text.toList = strip after := by
  obtain ⟨dice, rest, hdice, hexpr, hentries, -⟩ := inline?_eq_some h
  obtain ⟨plain, nesting?, heq, hplain, hnesting⟩ := exists_inlineEntries_eq (Marker.findAll rest)
  rw [← hentries] at heq
  refine ⟨fun e he => ?_, dice, rest, ?_, hexpr, ?_, fun e he hsub => ?_⟩
  · refine subtable?_eq_none_of_isPlain t (hplain e ?_)
    rw [heq] at he
    cases nesting? with
    | none => exact List.dropLast_subset _ (by simpa using he)
    | some last => simpa using he
  · obtain rfl : tail = dice ++ rest := takes_wordDice _ _ _ hdice
    have hmatches : Trigger.Matches (dice ++ rest) ⟨[], dice, rest⟩ :=
      Trigger.matches_iff.mpr ⟨rfl, rfl, hdice⟩
    exact hmatches.isFirst_tail
  · rw [hentries]
    exact holds_inlineEntries (Marker.follow_findAll rest)
  · rw [heq] at he
    rcases List.mem_append.mp he with he | he
    · exact absurd (subtable?_eq_none_of_isPlain t (hplain e he)) hsub
    · obtain ⟨m, hm, htext⟩ := hnesting e (Option.mem_toList.mp he)
      exact ⟨m.after, (Marker.follow_findAll rest).suffix_of_mem m hm, htext⟩

/-- Without the underscore the first text ends with dice, but has no table inside it; the second takes
the items after its dice. -/
theorem ice_takes_the_rest :
    let tail := "d3 1 fire d4_ 2-3. ice d6 1 hail 2 sleet".toList
    let fire : Entry := ⟨1, 1, "fire d4", by decide⟩
    let ice : Entry := ⟨2, 3, "ice d6 1 hail 2 sleet", by decide⟩
    ∃ t, inline? tail 1 {} = some t ∧ t.entries = [fire, ice] ∧
      (t.trigger? fire).isSome = true ∧ t.subtable? fire = none ∧ t.subtable? ice ≠ none ∧
      ∃ dice rest, tail = dice ++ rest ∧ Expr.ofNotation dice {} = .ok t.expr ∧
        Holds [fire.text, ice.text] (String.ofList rest) ∧
        ∃ after, after <:+ rest ∧ ice.text.toList = strip after := by
  intro tail fire ice
  have hfacts : (inline? tail 1 {}).any (fun t => t.entries = [fire, ice] &&
      (t.trigger? fire).isSome && (t.subtable? ice).isSome) = true := by decide +kernel
  obtain ⟨t, hinline, hfacts⟩ := (Option.any_eq_true _ _).mp hfacts
  simp only [Bool.and_eq_true, decide_eq_true_eq] at hfacts
  obtain ⟨⟨hentries, htrigger⟩, hice⟩ := hfacts
  have hnested : t.subtable? ice ≠ none := Option.isSome_iff_ne_none.mp hice
  obtain ⟨hnone, dice, rest, hfirst, hexpr, hholds, hlast⟩ := nests_only_to_the_right hinline
  rw [hentries] at hnone hholds hlast
  exact ⟨t, hinline, hentries, htrigger, hnone fire (by simp), hnested, dice, rest, hfirst.cut, hexpr,
    hholds, hlast ice (by simp) hnested⟩

end Table

end DiceTables
