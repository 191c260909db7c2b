import DiceTables.Proofs.Computation
import DiceTables.Proofs.Lines
import DiceTables.Table.Basic

/-!
Noise around the lines of a table. Headers and numbered outcomes are read from what is left of a line
without the noise around it, so more noise makes no difference to either. An outcome with a bullet is
another matter, since the bullet is noise itself; but bullets count only where no line is numbered. So
where a line is numbered, a table is built from its lines just as from the same lines with noise around
them; only a header that is no header is quoted with its noise.
-/

namespace DiceTables

open Text

/-! ### Lines -/

/-- A line with more noise before and after it. -/
def Noisy (line line' : List Char) : Prop :=
  ∃ before after, line' = before ++ (line ++ after) ∧ (∀ c ∈ before, isNoise c = true) ∧
    ∀ c ∈ after, isNoise c = true

namespace Noisy

variable {line line' : List Char}

theorem refl (line : List Char) : Noisy line line :=
  ⟨[], [], by simp, List.forall_mem_nil _, List.forall_mem_nil _⟩

theorem strip_eq (h : Noisy line line') : strip line' = strip line := by
  obtain ⟨before, after, rfl, hbefore, hafter⟩ := h
  calc strip (before ++ (line ++ after)) = strip (line ++ after) := trimWhile_append_left hbefore _
    _ = strip line := trimWhile_append_of_forall line hafter

/-- A header has the same parts. -/
theorem header?_eq (h : Noisy line line') : Line.header? line' = Line.header? line := by
  rw [Line.header?, h.strip_eq, Line.header?]

/-- A numbered outcome has the same parts. -/
theorem numbered?_eq (h : Noisy line line') : Line.numbered? line' = Line.numbered? line := by
  rw [Line.numbered?, h.strip_eq, Line.numbered?]

theorem ofLine?_eq (h : Noisy line line') : Entry.ofLine? line' = Entry.ofLine? line := by
  rw [Entry.ofLine?, h.numbered?_eq, Entry.ofLine?]

end Noisy

/-! ### Outcomes -/

section

variable {body body' : List (List Char)}

theorem filterMap_ofLine?_of_noisy (h : List.Forall₂ Noisy body body') :
    body'.filterMap Entry.ofLine? = body.filterMap Entry.ofLine? := by
  induction h with
  | nil => rfl
  | cons hline _ ih => rw [List.filterMap_cons, List.filterMap_cons, hline.ofLine?_eq, ih]

/-- The numbered outcomes are the outcomes, wherever there are any. -/
theorem Entry.ofLines_of_numbered (low : Int) (h : body.filterMap Entry.ofLine? ≠ []) :
    Entry.ofLines low body = body.filterMap Entry.ofLine? := by
  unfold Entry.ofLines
  split
  · next hnil => exact absurd hnil h
  · rfl

theorem ofLines_of_noisy (low : Int) (h : List.Forall₂ Noisy body body')
    (hnumbered : ∃ line ∈ body, (Entry.ofLine? line).isSome = true) :
    Entry.ofLines low body' = Entry.ofLines low body := by
  have hsame := filterMap_ofLine?_of_noisy h
  have hne : body.filterMap Entry.ofLine? ≠ [] := by
    obtain ⟨line, hline, hsome⟩ := hnumbered
    obtain ⟨e, he⟩ := Option.isSome_iff_exists.mp hsome
    exact List.ne_nil_of_mem (List.mem_filterMap.mpr ⟨line, hline, he⟩)
  rw [Entry.ofLines_of_numbered low (hsame ▸ hne), Entry.ofLines_of_numbered low hne, hsame]

end

/-! ### Tables -/

/-- Two results of building a table that are the same, or else two headers that are refused alike, each
as it is written. -/
inductive BuildsAlike : Except TableError Table → Except TableError Table → Prop
  | same (result : Except TableError Table) : BuildsAlike result result
  | refused (header header' : String) :
    BuildsAlike (.error (.noDiceNotation header)) (.error (.noDiceNotation header'))

namespace Table

variable {header header' : List Char} {body body' : List (List Char)}

/-- The lines are only looked at for the outcomes among them. -/
theorem build_congr {limits : Limits} (hheader : Line.header? header' = Line.header? header)
    (hsome : (Line.header? header).isSome = true)
    (hbody : ∀ low, Entry.ofLines low body' = Entry.ofLines low body) :
    build header' body' limits = build header body limits := by
  obtain ⟨parts, hparts⟩ := Option.isSome_iff_exists.mp hsome
  simp only [build, hheader, hparts, hbody]

/-- Noise around the header and around any of the lines after it makes no difference to what is built,
provided that one of the lines is numbered. -/
theorem build_ignores_noise (limits : Limits) (hheader : Noisy header header')
    (hbody : List.Forall₂ Noisy body body')
    (hnumbered : ∃ line ∈ body, (Entry.ofLine? line).isSome = true) :
    BuildsAlike (build header body limits) (build header' body' limits) := by
  cases hparts : Line.header? header with
  | none =>
    have hparts' : Line.header? header' = none := hheader.header?_eq.trans hparts
    simp only [build, hparts, hparts']
    exact .refused _ _
  | some parts =>
    rw [build_congr hheader.header?_eq (by rw [hparts]; rfl)
      fun low => ofLines_of_noisy low hbody hnumbered]
    exact .same _

/-- Emphasis around the header, and a quotation mark and a blank before one of the outcomes. -/
theorem emphasis_and_quotation_ignored :
    BuildsAlike
      (build "d2: Coin".toList ["1. Heads".toList, "2. Tails".toList] {})
      (build "**d2: Coin**".toList ["1. Heads".toList, "> 2. Tails --".toList] {}) := by
  refine build_ignores_noise {} ?_ ?_ ?_
  · exact ⟨"**".toList, "**".toList, rfl, List.all_eq_true.mp rfl, List.all_eq_true.mp rfl⟩
  · refine .cons (.refl _) (.cons ?_ .nil)
    exact ⟨"> ".toList, " --".toList, rfl, List.all_eq_true.mp rfl, List.all_eq_true.mp rfl⟩
  · exact ⟨"1. Heads".toList, List.mem_cons_self, by decide⟩

/-- Where no line is numbered, a quotation mark hides a bullet. -/
example : build "d2 Coin".toList ["- Heads".toList, "> - Tails".toList] {} ≠
    build "d2 Coin".toList ["- Heads".toList, "- Tails".toList] {} := by
  decide +kernel

end Table

end DiceTables
