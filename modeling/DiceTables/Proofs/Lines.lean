import DiceTables.Proofs.Scanning
import DiceTables.Text.Blank
import Mathlib.Data.List.Infix

/-!
Lines and trimming. Trimming leaves a text alone exactly if neither of its ends is of the class, so
trimming twice is trimming once. Lines that are joined by line breaks are found again: those with
something on them come back trimmed and in order, and solid lines come back as they are.
-/

namespace DiceTables.Text

open Scanner

variable {p : Char → Bool}

/-! ### Trimming -/

theorem dropWhile_of_stops {s : List Char} (h : Stops p s) : s.dropWhile p = s :=
  dropWhile_append (List.forall_mem_nil _) h

theorem trimWhile_of_stops {s : List Char} (hfirst : Stops p s) (hlast : Stops p s.reverse) :
    trimWhile p s = s := by
  rw [trimWhile, dropWhile_of_stops hfirst, trimEndWhile, dropWhile_of_stops hlast,
    List.reverse_reverse]

/-- What trimming at the end drops is of the class. -/
theorem exists_trimEndWhile_append (p : Char → Bool) (s : List Char) :
    ∃ dropped, s = trimEndWhile p s ++ dropped ∧ ∀ c ∈ dropped, p c = true := by
  refine ⟨(s.reverse.takeWhile p).reverse, ?_, fun c hc => ?_⟩
  · rw [trimEndWhile, ← List.reverse_append, List.takeWhile_append_dropWhile, List.reverse_reverse]
  · exact List.mem_takeWhile_imp (List.mem_reverse.mp hc)

/-- What trimming drops at either end is of the class. -/
theorem exists_append_trimWhile_append (p : Char → Bool) (s : List Char) :
    ∃ before after, s = before ++ (trimWhile p s ++ after) ∧ (∀ c ∈ before, p c = true) ∧
      ∀ c ∈ after, p c = true := by
  obtain ⟨after, heq, hafter⟩ := exists_trimEndWhile_append p (s.dropWhile p)
  refine ⟨s.takeWhile p, after, ?_, fun c hc => List.mem_takeWhile_imp hc, hafter⟩
  rw [trimWhile, ← heq, List.takeWhile_append_dropWhile]

/-- Trimming at the end does not go beyond what is not of the class. -/
theorem trimEndWhile_append {s : List Char} (h : ∃ c ∈ s, p c = false) (front : List Char) :
    trimEndWhile p (front ++ s) = front ++ trimEndWhile p s := by
  obtain ⟨c, hc, hp⟩ := h
  have hne : ¬ (s.reverse.dropWhile p).isEmpty = true := by
    rw [List.isEmpty_iff, List.dropWhile_eq_nil_iff]
    intro hall
    rw [hall c (List.mem_reverse.mpr hc)] at hp
    cases hp
  rw [trimEndWhile, List.reverse_append, List.dropWhile_append, if_neg hne, List.reverse_append,
    List.reverse_reverse, trimEndWhile]

/-- A character that is not of the class keeps what is before it when the end is trimmed. -/
theorem prefix_trimEndWhile {c : Char} (hc : p c = false) (front s : List Char) :
    front ++ [c] <+: trimEndWhile p (front ++ c :: s) := by
  have hstop : (c :: front.reverse).dropWhile p = c :: front.reverse := by simp [hc]
  rw [trimEndWhile, List.reverse_append, List.reverse_cons, List.append_assoc,
    List.singleton_append, List.dropWhile_append]
  split
  · simp [hstop]
  · exact ⟨(s.reverse.dropWhile p).reverse, by simp⟩

/-- Trimming drops more of the class at the end as well. -/
theorem trimWhile_append_of_forall (s : List Char) {dropped : List Char}
    (h : ∀ c ∈ dropped, p c = true) : trimWhile p (s ++ dropped) = trimWhile p s := by
  have hnone : dropped.dropWhile p = [] := List.dropWhile_eq_nil_iff.mpr h
  rw [trimWhile, List.dropWhile_append]
  split
  · next hempty =>
    rw [hnone, trimWhile, List.isEmpty_iff.mp hempty]
  · rw [trimEndWhile, List.reverse_append, List.dropWhile_append_of_pos (by simpa using h)]
    rfl

theorem trimWhile_eq_nil_iff {s : List Char} : trimWhile p s = [] ↔ ∀ c ∈ s, p c = true := by
  constructor
  · intro hnil
    obtain ⟨before, after, heq, hbefore, hafter⟩ := exists_append_trimWhile_append p s
    rw [hnil, List.nil_append] at heq
    exact heq ▸ List.forall_mem_append.mpr ⟨hbefore, hafter⟩
  · exact fun hall => trimWhile_append_of_forall [] hall

theorem trimWhile_append_left {dropped : List Char} (h : ∀ c ∈ dropped, p c = true)
    (s : List Char) : trimWhile p (dropped ++ s) = trimWhile p s := by
  rw [trimWhile, List.dropWhile_append_of_pos h, trimWhile]

/-- Trimming by a narrower class first makes no difference. -/
theorem trimWhile_trimWhile {q : Char → Bool} (h : ∀ c, p c = true → q c = true) (s : List Char) :
    trimWhile q (trimWhile p s) = trimWhile q s := by
  obtain ⟨dropped, heq, hdropped⟩ := exists_trimEndWhile_append p (s.dropWhile p)
  calc trimWhile q (trimWhile p s) = trimWhile q (trimWhile p s ++ dropped) :=
        (trimWhile_append_of_forall _ fun c hc => h c (hdropped c hc)).symm
    _ = trimWhile q (s.dropWhile p) := congrArg (trimWhile q) heq.symm
    _ = trimWhile q (s.takeWhile p ++ s.dropWhile p) :=
        (trimWhile_append_left (fun c hc => h c (List.mem_takeWhile_imp hc)) _).symm
    _ = trimWhile q s := by rw [List.takeWhile_append_dropWhile]

theorem trim_trim (s : List Char) : trim (trim s) = trim s := trimWhile_trimWhile (fun _ h => h) s

/-- A line that is read as something, blanks around it or not, has something on it. -/
theorem trim_ne_nil {α : Type} {read : List Char → Option α} {line : List Char}
    (htrim : ∀ l, read (trim l) = read l) (hnil : read [] = none)
    (h : (read line).isSome = true) : trim line ≠ [] := by
  intro hempty
  rw [← htrim, hempty, hnil] at h
  cases h

/-- Where a text consists of two parts and a filler of the class between them, trimming leaves both
parts; the filler stays just if there is something after it. -/
theorem exists_trimWhile_append {front back : List Char} (filler : List Char) (hne : front ≠ [])
    (hfront : Stops p front) (hfront' : Stops p front.reverse)
    (hfiller : ∀ c ∈ filler, p c = true) (hback : Stops p back) (hback' : Stops p back.reverse) :
    ∃ rest, trimWhile p (front ++ (filler ++ back)) = front ++ rest ∧
      (rest = [] ∨ rest = filler ++ back) ∧ trimWhile p rest = back := by
  by_cases hnil : back = []
  · subst hnil
    refine ⟨[], ?_, .inl rfl, rfl⟩
    rw [List.append_nil, trimWhile_append_of_forall front hfiller, List.append_nil]
    exact trimWhile_of_stops hfront hfront'
  · refine ⟨filler ++ back, ?_, .inr rfl, ?_⟩
    · refine trimWhile_of_stops (hfront.append_of_ne_nil hne _) ?_
      rw [← List.append_assoc, List.reverse_append]
      exact hback'.append_of_ne_nil (by simpa using hnil) _
    · rw [trimWhile_append_left hfiller, trimWhile_of_stops hback hback']

theorem mem_of_mem_trimWhile {s : List Char} {c : Char} (h : c ∈ trimWhile p s) : c ∈ s := by
  obtain ⟨dropped, heq, -⟩ := exists_trimEndWhile_append p (s.dropWhile p)
  have hmem : c ∈ s.dropWhile p := by
    rw [heq]
    exact List.mem_append_left dropped h
  exact (List.dropWhile_suffix p).subset hmem

/-- Trimming keeps whatever is not of the class. -/
theorem mem_trimWhile {s : List Char} {c : Char} (hc : c ∈ s) (h : p c = false) :
    c ∈ trimWhile p s := by
  obtain ⟨dropped, heq, hdropped⟩ := exists_trimEndWhile_append p (s.dropWhile p)
  rw [← List.takeWhile_append_dropWhile (p := p) (l := s), heq, List.mem_append,
    List.mem_append] at hc
  rcases hc with hfirst | hkept | hlast
  · rw [List.mem_takeWhile_imp hfirst] at h
    cases h
  · exact hkept
  · rw [hdropped c hlast] at h
    cases h

/-! ### Lines -/

/-- Lines with a line break between each and the next. -/
def joinLines (ls : List (List Char)) : List Char := ['\n'].intercalate ls

theorem joinLines_singleton (l : List Char) : joinLines [l] = l := by
  simp [joinLines]

theorem joinLines_cons_cons (l l' : List Char) (ls : List (List Char)) :
    joinLines (l :: l' :: ls) = l ++ '\n' :: joinLines (l' :: ls) := by
  simp [joinLines, List.intercalate_cons_cons]

/-- A line ends at its line break, with or without a carriage return. -/
theorem lines_append_break {l : List Char} (h : '\n' ∉ l) (s : List Char) :
    ∃ line, lines (l ++ '\n' :: s) = line :: lines s ∧ (l = line ∨ l = line ++ ['\r']) := by
  induction l with
  | nil => exact ⟨[], by rw [List.nil_append, lines], .inl rfl⟩
  | cons c l ih =>
    obtain ⟨hc, hl⟩ := not_or.mp (List.mem_cons.not.mp h)
    by_cases hreturn : c = '\r' ∧ l = []
    · obtain ⟨rfl, rfl⟩ := hreturn
      exact ⟨[], by rw [List.cons_append, List.nil_append, lines], .inr rfl⟩
    · obtain ⟨line, hlines, hline⟩ := ih hl
      have hbreak : ∀ rest, c = '\r' → l ++ '\n' :: s = '\n' :: rest → False := by
        intro rest hcr heq
        cases l with
        | nil => exact hreturn ⟨hcr, rfl⟩
        | cons d l => exact hl (by rw [(List.cons.inj heq).1]; exact List.mem_cons_self)
      refine ⟨c :: line, ?_, ?_⟩
      · rw [List.cons_append, lines.eq_4 c _ (Ne.symm hc) hbreak, hlines]
      · rcases hline with rfl | rfl
        · exact .inl rfl
        · exact .inr rfl

theorem lines_of_noBreak : ∀ {l : List Char}, '\n' ∉ l → l ≠ [] → lines l = [l]
  | [c], h, _ => by
    rw [lines.eq_4 c [] (fun hc => h (by rw [hc]; exact List.mem_cons_self)) (by simp), lines]
  | c :: d :: l, h, _ => by
    obtain ⟨hc, hl⟩ := not_or.mp (List.mem_cons.not.mp h)
    have hd : ∀ rest, c = '\r' → d :: l = '\n' :: rest → False := by
      rintro rest - heq
      exact hl (by rw [heq]; exact List.mem_cons_self)
    rw [lines.eq_4 c _ (Ne.symm hc) hd, lines_of_noBreak hl (List.cons_ne_nil d l)]

theorem noBreak_of_mem_lines (s : List Char) : ∀ l ∈ lines s, '\n' ∉ l := by
  fun_induction lines s with
  | case1 => simp
  | case2 rest ih => exact List.forall_mem_cons.mpr ⟨by simp, ih⟩
  | case3 rest ih => exact List.forall_mem_cons.mpr ⟨by simp, ih⟩
  | case4 c rest hc hreturn hnil ih => simpa using Ne.symm hc
  | case5 c rest hc hreturn line more hlines ih =>
    rw [hlines] at ih
    obtain ⟨hline, hmore⟩ := List.forall_mem_cons.mp ih
    refine List.forall_mem_cons.mpr ⟨?_, hmore⟩
    exact List.mem_cons.not.mpr (not_or.mpr ⟨Ne.symm hc, hline⟩)

/-- Joined lines are found again: those that hold more than blanks, trimmed. -/
theorem solidLines_joinLines : ∀ {ls : List (List Char)}, (∀ l ∈ ls, '\n' ∉ l) →
    solidLines (joinLines ls) = (ls.map trim).filter (!·.isEmpty)
  | [], _ => rfl
  | [l], h => by
    have hl := h l List.mem_cons_self
    by_cases hne : l = []
    · subst hne
      rfl
    · rw [joinLines_singleton, solidLines, lines_of_noBreak hl hne]
  | l :: l' :: ls, h => by
    obtain ⟨hl, hls⟩ := List.forall_mem_cons.mp h
    obtain ⟨line, hlines, hline⟩ := lines_append_break hl (joinLines (l' :: ls))
    have htrim : trim line = trim l := by
      rcases hline with rfl | rfl
      · rfl
      · exact (trimWhile_append_of_forall line (List.forall_mem_singleton.mpr rfl)).symm
    have ih := solidLines_joinLines hls
    rw [solidLines] at ih
    rw [joinLines_cons_cons, solidLines, hlines, List.map_cons, List.map_cons, List.filter_cons,
      List.filter_cons, htrim, ih]

/-- A line of a text with something on it, as it is kept: trimmed and without a line break. -/
structure IsSolid (l : List Char) : Prop where
  ne_nil : l ≠ []
  trim_eq : trim l = l
  noBreak : '\n' ∉ l

theorem isSolid_of_mem_solidLines {s l : List Char} (h : l ∈ solidLines s) : IsSolid l := by
  obtain ⟨hmem, hne⟩ := List.mem_filter.mp h
  obtain ⟨line, hline, rfl⟩ := List.mem_map.mp hmem
  refine ⟨by simpa using hne, trim_trim line, fun hbreak => ?_⟩
  exact noBreak_of_mem_lines s line hline (mem_of_mem_trimWhile hbreak)

/-- Solid lines that are joined are found again as they are. -/
theorem solidLines_joinLines_of_isSolid {ls : List (List Char)} (h : ∀ l ∈ ls, IsSolid l) :
    solidLines (joinLines ls) = ls := by
  have hmap : ls.map trim = ls := by
    rw [List.map_congr_left fun l hl => (h l hl).trim_eq, List.map_id']
  rw [solidLines_joinLines fun l hl => (h l hl).noBreak, hmap, List.filter_eq_self]
  intro l hl
  simpa using (h l hl).ne_nil

end DiceTables.Text
