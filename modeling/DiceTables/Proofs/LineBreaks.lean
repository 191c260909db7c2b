import DiceTables.Proofs.SelectionLine
import DiceTables.Work.Resolve

/-!
Line breaks. A text has one line more than it has line breaks, unless it ends with one, and so have
lines that are joined. What came of a job takes one line of the log: of an outcome only the first line
is shown, which ends where the line does.
-/

namespace DiceTables

open Text

/-! ### Counting lines -/

namespace Text

/-- How many line breaks a text has. -/
def breaks (s : String) : Nat := s.toList.count '\n'

theorem breaks_append (s t : String) : breaks (s ++ t) = breaks s + breaks t := by
  rw [breaks, String.toList_append, List.count_append, breaks, breaks]

theorem breaks_eq_zero_iff {s : String} : breaks s = 0 ↔ OneLine s := List.count_eq_zero

/-- A text has one line more than it has line breaks, unless it ends with one. -/
theorem length_lines {s : List Char} (hne : s ≠ []) (hlast : s.getLast? ≠ some '\n') :
    (lines s).length = s.count '\n' + 1 := by
  fun_induction lines s with
  | case1 => exact absurd rfl hne
  | case2 rest ih =>
    have hrest : rest ≠ [] := by
      rintro rfl
      exact hlast rfl
    rw [List.getLast?_cons_of_ne_nil hrest] at hlast
    rw [List.length_cons, ih hrest hlast, List.count_cons_self]
  | case3 rest ih =>
    have hrest : rest ≠ [] := by
      rintro rfl
      exact hlast rfl
    rw [List.getLast?_cons_of_ne_nil (List.cons_ne_nil _ _), List.getLast?_cons_of_ne_nil hrest] at hlast
    rw [List.length_cons, ih hrest hlast, List.count_cons_of_ne (by decide), List.count_cons_self]
  | case4 c rest hc hreturn hnil ih =>
    obtain rfl : rest = [] := by
      by_contra hrest
      rw [List.getLast?_cons_of_ne_nil hrest] at hlast
      have hlength := ih hrest hlast
      rw [hnil] at hlength
      cases hlength
    rw [List.count_cons_of_ne hc]
    rfl
  | case5 c rest hc hreturn line more hlines ih =>
    have hrest : rest ≠ [] := by
      rintro rfl
      cases hlines
    rw [List.getLast?_cons_of_ne_nil hrest] at hlast
    have hlength := ih hrest hlast
    rw [hlines] at hlength
    rw [List.count_cons_of_ne hc]
    exact hlength

theorem count_joinLines : ∀ {ls : List (List Char)}, ls ≠ [] →
    (joinLines ls).count '\n' + 1 = (ls.map (·.count '\n')).sum + ls.length
  | [l], _ => by simp [joinLines_singleton]
  | l :: l' :: ls, _ => by
    have ih := count_joinLines (List.cons_ne_nil l' ls)
    rw [joinLines_cons_cons, List.count_append, List.count_cons_self]
    simp only [List.map_cons, List.sum_cons, List.length_cons] at ih ⊢
    omega

/-- Joined lines end with the last of them. -/
theorem suffix_joinLines : ∀ {ls : List (List Char)} (h : ls ≠ []), ls.getLast h <:+ joinLines ls
  | [l], _ => by simp [joinLines_singleton]
  | l :: l' :: ls, _ => by
    have ih := suffix_joinLines (List.cons_ne_nil l' ls)
    rw [joinLines_cons_cons, List.getLast_cons_cons]
    exact ih.trans ((List.suffix_cons _ _).trans (List.suffix_append _ _))

/-- Lines that do not end like a line break are as many as they are, and more by every line break in
them. -/
theorem length_lines_joinLines {ls : List (List Char)} (hne : ls ≠ [])
    (h : ∀ l ∈ ls, l ≠ [] ∧ l.getLast? ≠ some '\n') :
    (lines (joinLines ls)).length = (ls.map (·.count '\n')).sum + ls.length := by
  obtain ⟨hnil, hlast⟩ := h _ (List.getLast_mem hne)
  obtain ⟨front, hfront⟩ := suffix_joinLines hne
  have hjoined : joinLines ls ≠ [] := by
    rw [← hfront]
    exact List.append_ne_nil_of_right_ne_nil _ hnil
  rw [length_lines hjoined, count_joinLines hne]
  rw [← hfront, List.getLast?_append_of_ne_nil _ hnil]
  exact hlast

end Text

/-! ### What takes one line of a log -/

/-- A text that stays on one line and does not end like a line break. -/
structure EndsLine (s : String) : Prop where
  oneLine : OneLine s
  last : s.toList.getLast? ≠ some '\r'

theorem Unbroken.endsLine {s : String} (h : Unbroken s) : EndsLine s where
  oneLine := h.oneLine
  last hreturn := (h _ (List.mem_of_getLast? hreturn)).2 rfl

theorem EndsLine.append {s t : String} (hs : Unbroken s) (ht : EndsLine t) : EndsLine (s ++ t) where
  oneLine := hs.oneLine.append ht.oneLine
  last := by
    rw [String.toList_append]
    rcases eq_or_ne t.toList [] with hnil | hne
    · rw [hnil, List.append_nil]
      exact hs.endsLine.last
    · rw [List.getLast?_append_of_ne_nil _ hne]
      exact ht.last

/-- What is left of a line without the blanks at its ends does not end like a line break. -/
theorem endsLine_trim {line : List Char} (h : '\n' ∉ line) : EndsLine (String.ofList (trim line)) where
  oneLine := by
    rw [OneLine, String.toList_ofList]
    exact fun hbreak => h (mem_of_mem_trimWhile hbreak)
  last := by
    have hstops : Scanner.Stops isBlank (trim line).reverse := by
      rw [trim, trimWhile, trimEndWhile, List.reverse_reverse]
      exact Scanner.stops_dropWhile _
    rw [String.toList_ofList, ← List.head?_reverse]
    exact fun hreturn => absurd (hstops _ hreturn) (by decide)

/-- What came of a job takes one line of the log. -/
theorem Output.endsLine_text {output : Output} (h : ∀ text, output = .note text → Unbroken text) :
    EndsLine output.text := by
  cases output with
  | note text => exact (h text rfl).endsLine
  | skipped count =>
    have hcount : Unbroken ("skipped " ++ toString count) := .append (by decide) (.natRepr count)
    exact (hcount.append (by decide)).endsLine
  | roll evaluated value => exact (Unbroken.evaluated evaluated _).endsLine
  | outcome o =>
    refine endsLine_trim ?_
    cases hlines : lines o.text.toList with
    | nil => exact List.not_mem_nil
    | cons line more => exact noBreak_of_mem_lines _ line (hlines ▸ List.mem_cons_self)

end DiceTables
