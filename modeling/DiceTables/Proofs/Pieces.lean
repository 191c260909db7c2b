import Mathlib.Data.List.Basic

/-!
Texts that are put together from others. The character that a text starts with tells apart texts of
different kinds. A join of texts starts as the first of them does, and the pieces of all of them are
found in it in their order, even if empty texts are left out. A heading takes none of them away.
-/

namespace DiceTables.Text

variable {α : Type} {separator : String}

/-! ### How a text starts -/

/-- The character that a text starts with. -/
def first? (s : String) : Option Char := s.toList.head?

theorem first?_append_of_ne_empty {s : String} (h : s ≠ "") (t : String) :
    first? (s ++ t) = first? s := by
  rw [first?, first?, String.toList_append]
  exact List.head?_append_of_ne_nil _ (by simpa using h)

theorem first?_append {s : String} {c : Char} (h : first? s = some c) (t : String) :
    first? (s ++ t) = some c := by
  have hs : s ≠ "" := by
    rintro rfl
    cases h
  rw [first?_append_of_ne_empty hs, h]

/-- A join starts as its first text does. -/
theorem first?_intercalate_ne {l : List String} {c : Char} (h : ∀ s ∈ l, s ≠ "")
    (hc : ∀ s ∈ l, first? s ≠ some c) : first? (separator.intercalate l) ≠ some c := by
  cases l with
  | nil => simp [first?]
  | cons s l =>
    have hs := hc s List.mem_cons_self
    cases l with
    | nil => simpa using hs
    | cons s' l =>
      rw [String.intercalate_cons_cons, String.append_assoc,
        first?_append_of_ne_empty (h s List.mem_cons_self)]
      exact hs

/-! ### Texts under headings -/

/-- A text under a heading, or a fallback if there is no text. -/
def under (heading fallback s : String) : String := if s.isEmpty then fallback else heading ++ s

@[simp] theorem under_empty (s : String) : under "" "" s = s := by
  rw [under]
  split
  · next h => exact (String.isEmpty_iff.mp h).symm
  · rw [String.empty_append]

theorem under_eq_empty_iff {heading s : String} : under heading "" s = "" ↔ s = "" := by
  rw [under]
  split
  · next h => simp [String.isEmpty_iff.mp h]
  · simp only [String.append_eq_empty_iff, and_iff_right_iff_imp]
    intro h
    simp_all

/-- A text under a heading starts as the heading does, or as the text if the heading is empty. -/
theorem first?_under_ne {heading s : String} {c : Char} (hheading : first? heading ≠ some c)
    (hs : heading = "" → first? s ≠ some c) : first? (under heading "" s) ≠ some c := by
  rw [under]
  split
  · simp [first?]
  · by_cases hempty : heading = ""
    · rw [hempty, String.empty_append]
      exact hs hempty
    · rwa [first?_append_of_ne_empty hempty]

/-! ### Pieces of a text -/

/-- The pieces stand in the text one after the other, none overlapping the one before it. -/
def Holds : (pieces : List String) → (text : String) → Prop
  | [], _ => True
  | piece :: more, text => ∃ before after, text = before ++ piece ++ after ∧ Holds more after

theorem holds_singleton (s : String) : Holds [s] s :=
  ⟨"", "", by rw [String.empty_append, String.append_empty], trivial⟩

namespace Holds

variable {pieces more : List String} {s t : String}

theorem after (h : Holds pieces t) (s : String) : Holds pieces (s ++ t) := by
  cases pieces with
  | nil => trivial
  | cons piece more =>
    obtain ⟨before, rest, rfl, hmore⟩ := h
    exact ⟨s ++ before, rest, by simp only [String.append_assoc], hmore⟩

theorem append : ∀ {pieces : List String} {s : String}, Holds pieces s → Holds more t →
    Holds (pieces ++ more) (s ++ t)
  | [], s, _, ht => ht.after s
  | piece :: pieces, s, ⟨before, rest, hs, hpieces⟩, ht =>
    ⟨before, rest ++ t, by simp only [hs, String.append_assoc], hpieces.append ht⟩

theorem before (h : Holds pieces s) (t : String) : Holds pieces (s ++ t) := by
  have hnone : Holds [] t := trivial
  rw [← List.append_nil pieces]
  exact h.append hnone

theorem under (h : Holds pieces s) (heading fallback : String) :
    Holds pieces (under heading fallback s) := by
  rw [Text.under]
  split
  · next hempty =>
    rw [String.isEmpty_iff.mp hempty] at h
    rw [← String.empty_append (s := fallback)]
    exact h.before fallback
  · exact h.after heading

end Holds

/-- What is found in the texts of a list is found in the same order in their join, even if empty
texts are left out. -/
theorem holds_intercalate (pieces : α → List String) (text : α → String) : ∀ {l : List α},
    (∀ a ∈ l, Holds (pieces a) (text a)) →
    Holds (l.flatMap pieces) (separator.intercalate ((l.map text).filter (!·.isEmpty)))
  | [], _ => trivial
  | a :: l, h => by
    obtain ⟨ha, hl⟩ := List.forall_mem_cons.mp h
    have ih := holds_intercalate pieces text hl
    rw [List.flatMap_cons, List.map_cons]
    by_cases hempty : text a = ""
    · rw [List.filter_cons_of_neg (by simp [hempty])]
      rw [hempty] at ha
      simpa using ha.append ih
    · rw [List.filter_cons_of_pos (by simpa using hempty)]
      cases hrest : (l.map text).filter (!·.isEmpty) with
      | nil =>
        rw [hrest] at ih
        simpa using ha.append ih
      | cons b rest =>
        rw [hrest] at ih
        rw [String.intercalate_cons_cons, String.append_assoc]
        exact ha.append (ih.after separator)

theorem intercalate_eq_empty_iff {l : List String} (h : ∀ s ∈ l, s ≠ "") :
    separator.intercalate l = "" ↔ l = [] := by
  cases l with
  | nil => simp
  | cons s l =>
    have hs := h s List.mem_cons_self
    cases l with
    | nil => simpa using hs
    | cons s' l => simp [String.append_eq_empty_iff, hs]

end DiceTables.Text
