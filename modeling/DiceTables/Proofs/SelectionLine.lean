import DiceTables.Proofs.Excerpts
import DiceTables.Proofs.OneLine
import DiceTables.Table.Outcome

/-!
The line of a selection in a report. It is put together from the texts of a table that has been built,
from numbers and from fixed words, none of which has a line break in it, so it stays one line when the
lines of a report are joined. What comes after its indentation starts with something other than a
space, so the indentation can be read off the line.
-/

namespace DiceTables

open Text Scanner

variable {limits : Limits}

/-! ### Lines of a report -/

namespace Text

/-- A text that is found again as one line: with something in it, no line break, and nothing at the
end that would be taken for part of one. -/
structure IsLine (l : List Char) : Prop where
  noBreak : '\n' ∉ l
  ne_nil : l ≠ []
  last : l.getLast? ≠ some '\r'

/-- Joined lines are found again as they are. -/
theorem lines_joinLines : ∀ {ls : List (List Char)}, (∀ l ∈ ls, IsLine l) →
    lines (joinLines ls) = ls
  | [], _ => rfl
  | [l], h => by
    have hl := h l List.mem_cons_self
    rw [joinLines_singleton, lines_of_noBreak hl.noBreak hl.ne_nil]
  | l :: l' :: ls, h => by
    obtain ⟨hl, hls⟩ := List.forall_mem_cons.mp h
    obtain ⟨line, hlines, hline⟩ := lines_append_break hl.noBreak (joinLines (l' :: ls))
    have hsame : l = line := by
      rcases hline with hline | hreturn
      · exact hline
      · have hlast := hl.last
        rw [hreturn] at hlast
        simp at hlast
    rw [joinLines_cons_cons, hlines, lines_joinLines hls, hsame]

/-- How many spaces a line starts with. -/
def indent (l : List Char) : Nat := (l.takeWhile (· = ' ')).length

/-- Two spaces for each level are as many spaces as twice the depth. -/
theorem toList_indentation (depth : Nat) : (String.join (List.replicate depth "  ")).toList =
    List.replicate (2 * depth) ' ' := by
  induction depth with
  | zero => rfl
  | succ n ih =>
    rw [List.replicate_succ, String.join_cons, String.toList_append, ih, Nat.mul_succ]
    rfl

theorem indent_append (n : Nat) {l : List Char} (h : Stops (· = ' ') l) :
    indent (List.replicate n ' ' ++ l) = n := by
  have hspaces : ∀ c ∈ List.replicate n ' ', decide (c = ' ') = true := by
    intro c hc
    exact decide_eq_true (List.eq_of_mem_replicate hc)
  rw [indent, takeWhile_append hspaces h, List.length_replicate]

end Text

/-! ### What a line is made of -/

/-- A text that starts with something other than a space. -/
def StartsSolid (s : String) : Prop := s.toList ≠ [] ∧ Stops (· = ' ') s.toList

theorem StartsSolid.append {s : String} (h : StartsSolid s) (t : String) :
    StartsSolid (s ++ t) := by
  rw [StartsSolid, String.toList_append]
  exact ⟨List.append_ne_nil_of_left_ne_nil h.1 _, h.2.append_of_ne_nil h.1 _⟩

theorem startsSolid_of_noise {s : String} (hne : s.toList ≠ []) (h : Stops isNoise s.toList) :
    StartsSolid s := by
  refine ⟨hne, fun c hc => decide_eq_false ?_⟩
  rintro rfl
  exact absurd (h ' ' hc) (by decide)

/-- An expression starts with a number or with dice. -/
theorem Expr.startsSolid_text {e : Expr} (h : ∀ t ∈ e.terms, t.Buildable limits) :
    StartsSolid e.text := by
  have hwritten := Expr.writtenAs_text h
  have hruns : e.form.Each fun _ => Notation.IsDecimalRun :=
    (Expr.proper_form h).mono fun _ _ h => h.isRun.isDecimalRun
  have hstops := hwritten.stops noise_apart_digit.symm Line.dieLetter_apart_noise hruns []
  rw [List.append_nil] at hstops
  exact startsSolid_of_noise (hwritten.ne_nil hruns) hstops

namespace Selection

/-- What a line says about the coverage of the table. -/
def coverageNote (s : Selection) : String :=
  if s.warnings.isEmpty then ""
  else "[Table roll error: " ++ "; ".intercalate (s.warnings.map Warning.text) ++ ".] "

/-- What a line says the table is about. -/
def heading (s : Selection) : String :=
  if s.description.isEmpty then "" else s.description ++ ": "

/-- The line of a selection without its indentation. -/
def content (s : Selection) : String :=
  s.coverageNote ++ s.heading ++ s.expr.text ++ " -> " ++ toString s.value ++ ": " ++ s.text

theorem toList_line (s : Selection) :
    s.line.toList = List.replicate (2 * s.depth) ' ' ++ s.content.toList := by
  rw [← toList_indentation, ← String.toList_append]
  simp only [line, content, coverageNote, heading, String.append_assoc]

/-- A line does not end like a line break. -/
theorem content_end {s : Selection} (hfree : IsFree s.text.toList) :
    s.content.toList.getLast? ≠ some '\r' := by
  obtain ⟨front, hcontent⟩ : ∃ front, s.content = front ++ ": " ++ s.text := ⟨_, rfl⟩
  rw [hcontent, String.toList_append, String.toList_append, List.getLast?_append]
  cases hlast : s.text.toList.getLast? with
  | none => simp
  | some c =>
    intro hreturn
    obtain rfl : c = '\r' := by simpa using hreturn
    exact absurd (hfree.last _ hlast) (by decide)

theorem oneLine_coverageNote (s : Selection) : OneLine s.coverageNote := by
  unfold coverageNote
  split
  · decide
  · have hlist : Unbroken ("; ".intercalate (s.warnings.map Warning.text)) := by
      refine Unbroken.intercalate (by decide) fun x hx => ?_
      obtain ⟨w, -, rfl⟩ := List.mem_map.mp hx
      exact .warning w
    exact ((Unbroken.append (by decide) hlist).append (by decide)).oneLine

/-- What holds of every selection in a table that has been built under some limits. -/
structure Regular (limits : Limits) (s : Selection) : Prop where
  depth_le : s.depth ≤ limits.maxDepth
  buildable : s.expr.Buildable limits
  description_free : IsFree s.description.toList
  text_free : IsFree s.text.toList

namespace Regular

variable {s : Selection}

theorem oneLine_heading (h : s.Regular limits) : OneLine s.heading := by
  unfold heading
  split
  · decide
  · exact OneLine.append h.description_free.noBreak (by decide)

theorem oneLine_content (h : s.Regular limits) : OneLine s.content := by
  have hexpr := (s.oneLine_coverageNote.append h.oneLine_heading).append (Unbroken.expr s.expr).oneLine
  have hvalue := (hexpr.append (show OneLine " -> " by decide)).append (Unbroken.intToString s.value).oneLine
  exact (hvalue.append (show OneLine ": " by decide)).append h.text_free.noBreak

/-- After its indentation a line goes on with something other than a space. -/
theorem startsSolid_content (h : s.Regular limits) : StartsSolid s.content := by
  have hexpr := Expr.startsSolid_text h.buildable.terms
  have hfront : StartsSolid (s.coverageNote ++ s.heading ++ s.expr.text) := by
    unfold coverageNote heading
    split
    · split
      · simpa using hexpr
      · next hdescription =>
        have hne : s.description.toList ≠ [] := by simpa using hdescription
        rw [String.empty_append]
        exact ((startsSolid_of_noise hne h.description_free.stops).append _).append _
    · have hbracket : StartsSolid "[Table roll error: " := ⟨by decide, .cons (by decide) _⟩
      exact (((hbracket.append _).append _).append _).append _
  exact (((hfront.append _).append _).append _).append _

/-- A selection takes one line. -/
theorem isLine (h : s.Regular limits) : IsLine s.line.toList := by
  have hne := h.startsSolid_content.1
  rw [toList_line]
  refine ⟨?_, ?_, ?_⟩
  · intro hbreak
    rcases List.mem_append.mp hbreak with hspaces | hcontent
    · exact absurd (List.eq_of_mem_replicate hspaces) (by decide)
    · exact h.oneLine_content hcontent
  · exact List.append_ne_nil_of_right_ne_nil _ hne
  · rw [List.getLast?_append_of_ne_nil _ hne]
    exact content_end h.text_free

/-- The line of a selection is indented by twice its depth. -/
theorem indent_line (h : s.Regular limits) : indent s.line.toList = 2 * s.depth := by
  rw [toList_line]
  exact indent_append _ h.startsSolid_content.2

end Regular

end Selection

end DiceTables
