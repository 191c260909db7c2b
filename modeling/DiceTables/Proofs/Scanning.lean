import DiceTables.Text.Scanner
import Mathlib.Data.List.TakeWhile
import Mathlib.Data.Option.Basic

/-!
What scanners read. Each scanner that patterns are put together from has one statement that says
both what it took and what it left. A run of characters of a class ends where none of the class
follows, so a text that begins with such a run is read in one way.
-/

namespace DiceTables.Text.Scanner

/-! ### Where a run ends -/

section

variable {α : Type} {p : α → Bool} {taken taken' rest rest' : List α}

/-- A text that does not go on with a character of a class. -/
def Stops (p : α → Bool) (s : List α) : Prop := ∀ c ∈ s.head?, p c = false

theorem Stops.nil : Stops p [] := by
  intro c hc
  cases hc

theorem Stops.cons {c : α} (hc : p c = false) (s : List α) : Stops p (c :: s) := by
  rintro _ ⟨⟩
  exact hc

theorem Stops.append_of_ne_nil (hne : taken ≠ []) (h : Stops p taken) (rest : List α) :
    Stops p (taken ++ rest) := by
  cases taken with
  | nil => exact absurd rfl hne
  | cons c taken => exact h

theorem Stops.append (htaken : Stops p taken) (hrest : Stops p rest) : Stops p (taken ++ rest) := by
  cases taken with
  | nil => exact hrest
  | cons c taken => exact htaken

/-- What does not go on with a class does not go on with a narrower one. -/
theorem Stops.mono {q : α → Bool} {s : List α} (h : Stops q s)
    (hpq : ∀ c, p c = true → q c = true) : Stops p s := by
  intro c hc
  refine Bool.eq_false_iff.mpr fun hp => ?_
  have hq := h c hc
  rw [hpq c hp] at hq
  cases hq

theorem stops_dropWhile : ∀ s : List α, Stops p (s.dropWhile p)
  | [] => .nil
  | c :: s => by
    rw [List.dropWhile_cons]
    split
    · exact stops_dropWhile s
    · next hc => exact .cons (Bool.of_not_eq_true hc) s

theorem takeWhile_append (htaken : ∀ c ∈ taken, p c = true) (hrest : Stops p rest) :
    (taken ++ rest).takeWhile p = taken := by
  rw [List.takeWhile_append_of_pos htaken]
  cases rest with
  | nil => simp
  | cons c rest => simp [hrest c rfl]

theorem dropWhile_append (htaken : ∀ c ∈ taken, p c = true) (hrest : Stops p rest) :
    (taken ++ rest).dropWhile p = rest := by
  rw [List.dropWhile_append_of_pos htaken]
  cases rest with
  | nil => rfl
  | cons c rest => simp [hrest c rfl]

/-- Two runs that end are told apart by the texts that they begin. -/
theorem run_append_inj (htaken : ∀ c ∈ taken, p c = true) (htaken' : ∀ c ∈ taken', p c = true)
    (hrest : Stops p rest) (hrest' : Stops p rest') (heq : taken ++ rest = taken' ++ rest') :
    taken = taken' ∧ rest = rest' := by
  constructor
  · rw [← takeWhile_append htaken hrest, heq, takeWhile_append htaken' hrest']
  · rw [← dropWhile_append htaken hrest, heq, dropWhile_append htaken' hrest']

/-- Two runs that are ended by the beginning are told apart by the texts that they end. -/
theorem append_run_inj (htaken : ∀ c ∈ taken, p c = true) (htaken' : ∀ c ∈ taken', p c = true)
    (hrest : Stops p rest.reverse) (hrest' : Stops p rest'.reverse)
    (heq : rest ++ taken = rest' ++ taken') : rest = rest' ∧ taken = taken' := by
  have hreverse : taken.reverse ++ rest.reverse = taken'.reverse ++ rest'.reverse := by
    simpa using congrArg List.reverse heq
  obtain ⟨htakens, hrests⟩ :=
    run_append_inj (by simpa using htaken) (by simpa using htaken') hrest hrest' hreverse
  exact ⟨List.reverse_inj.mp hrests, List.reverse_inj.mp htakens⟩

/-- A text with a run between its two parts, and perhaps one after them, is cut in one way only. -/
theorem run_between_inj {between between' back : List α} (hbetween : ∀ c ∈ between, p c = true)
    (hbetween' : ∀ c ∈ between', p c = true) (htaken : ∀ c ∈ taken, p c = true)
    (hrest : Stops p rest.reverse) (hrest' : Stops p rest'.reverse) (hne : back ≠ [])
    (hback : Stops p back.reverse)
    (heq : rest ++ (between ++ (back ++ taken)) = rest' ++ (between' ++ back)) :
    rest = rest' ∧ between = between' ∧ taken = [] := by
  have hends : ∀ front : List α, Stops p (front ++ back).reverse := fun front => by
    rw [List.reverse_append]
    exact hback.append_of_ne_nil (by simpa using hne) _
  have hwhole : ((rest ++ between) ++ back) ++ taken = ((rest' ++ between') ++ back) ++ [] := by
    simpa using heq
  obtain ⟨hfronts, rfl⟩ := append_run_inj htaken (by simp) (hends _) (hends _) hwhole
  obtain ⟨rfl, rfl⟩ :=
    append_run_inj hbetween hbetween' hrest hrest' (List.append_cancel_right hfronts)
  exact ⟨rfl, rfl, rfl⟩

/-- The last element that is not of a class is told apart by what comes before and after it. -/
theorem append_cons_run_inj {c c' : α} (hc : p c = false) (hc' : p c' = false)
    (htaken : ∀ d ∈ taken, p d = true) (htaken' : ∀ d ∈ taken', p d = true)
    (heq : rest ++ c :: taken = rest' ++ c' :: taken') : rest = rest' ∧ c = c' ∧ taken = taken' := by
  have hstops : ∀ {d : α} (s : List α), p d = false → Stops p (s ++ [d]).reverse := fun s hd => by
    rw [List.reverse_concat]
    exact .cons hd _
  rw [List.append_cons, List.append_cons rest'] at heq
  obtain ⟨hfront, htakens⟩ :=
    append_run_inj htaken htaken' (hstops rest hc) (hstops rest' hc') heq
  obtain ⟨hrests, hlast⟩ := List.append_inj' hfront rfl
  exact ⟨hrests, (List.cons.inj hlast).1, htakens⟩

end

/-! ### Single scanners -/

variable {p : Char → Bool} {taken rest s : List Char}

theorem run_eq_some : run p s = some (taken, rest) ↔
    s = taken ++ rest ∧ (∀ c ∈ taken, p c = true) ∧ Stops p rest := by
  constructor
  · intro h
    obtain ⟨rfl, rfl⟩ := Prod.mk.inj (Option.some.inj h)
    exact ⟨List.takeWhile_append_dropWhile.symm, fun c hc => List.mem_takeWhile_imp hc,
      stops_dropWhile s⟩
  · rintro ⟨rfl, htaken, hrest⟩
    rw [run, takeWhile_append htaken hrest, dropWhile_append htaken hrest]

theorem run1_eq_some : run1 p s = some (taken, rest) ↔
    taken ≠ [] ∧ s = taken ++ rest ∧ (∀ c ∈ taken, p c = true) ∧ Stops p rest := by
  have hrun : run1 p s = some (taken, rest) ↔ taken ≠ [] ∧ run p s = some (taken, rest) := by
    unfold run1 run
    split
    · next hnil =>
      rw [hnil]
      constructor
      · rintro ⟨⟩
      · rintro ⟨hne, h⟩
        exact absurd (Prod.mk.inj (Option.some.inj h)).1.symm hne
    · next hne =>
      refine ⟨fun h => ⟨?_, h⟩, fun h => h.2⟩
      rw [← (Prod.mk.inj (Option.some.inj h)).1]
      exact hne
  rw [hrun, run_eq_some]

theorem run1_eq_none (h : Stops p s) : run1 p s = none := by
  cases s with
  | nil => rfl
  | cons c s => simp [run1, h c rfl]

/-! ### Patterns -/

theorem one_eq_some : one p s = some (taken, rest) ↔
    ∃ c, p c = true ∧ taken = [c] ∧ s = c :: rest := by
  cases s with
  | nil => simp [one]
  | cons c s => simp [one]; grind

theorem one_eq_none (h : Stops p s) : one p s = none := by
  cases s with
  | nil => rfl
  | cons c s => simp [one, h c rfl]

theorem literal_eq_some {taken rest : List Char} : ∀ {piece s : List Char},
    literal piece s = some (taken, rest) ↔ taken = piece ∧ s = piece ++ rest
  | [], s => by simp [literal, eq_comm]
  | c :: piece, [] => by simp [literal]
  | c :: piece, d :: s => by
    by_cases hc : c = d
    · subst hc
      simp [literal, literal_eq_some, eq_comm]
      grind
    · simp [literal, hc, eq_comm]

theorem literal_append (piece s : List Char) : literal piece (piece ++ s) = some (piece, s) :=
  literal_eq_some.mpr ⟨rfl, rfl⟩

theorem sequence_nil_eq_some : sequence [] s = some (taken, rest) ↔ taken = [] ∧ s = rest := by
  simp [sequence, eq_comm]

theorem sequence_cons_eq_some {a : Scanner (List Char)} {more : List (Scanner (List Char))} :
    sequence (a :: more) s = some (taken, rest) ↔ ∃ first between others,
      a s = some (first, between) ∧ sequence more between = some (others, rest) ∧
      taken = first ++ others := by
  simp only [sequence, bind, Option.bind_eq_some_iff, Prod.exists, Option.pure_def,
    Option.some_inj, Prod.mk.injEq]
  grind

theorem sequence_pair_eq_some {a b : Scanner (List Char)} {taken rest s : List Char} :
    sequence [a, b] s = some (taken, rest) ↔ ∃ first between second,
      a s = some (first, between) ∧ b between = some (second, rest) ∧ taken = first ++ second := by
  simp only [sequence_cons_eq_some, sequence_nil_eq_some]
  grind

theorem optional_eq_some {a : Scanner (List Char)} (h : optional a s = some (taken, rest)) :
    a s = some (taken, rest) ∨ a s = none ∧ taken = [] ∧ rest = s := by
  unfold optional at h
  cases ha : a s with
  | none =>
    rw [ha] at h
    obtain ⟨rfl, rfl⟩ := Prod.mk.inj (Option.some.inj h)
    exact .inr ⟨rfl, rfl, rfl⟩
  | some x =>
    rw [ha] at h
    exact .inl h

theorem either_eq_some {a b : Scanner (List Char)} (h : either a b s = some (taken, rest)) :
    a s = some (taken, rest) ∨ b s = some (taken, rest) := by
  unfold either at h
  cases ha : a s with
  | none =>
    rw [ha] at h
    exact .inr h
  | some x =>
    rw [ha] at h
    exact .inl h

/-! ### Repetition -/

section

variable {α : Type} {a : Scanner α}

theorem many_of_none (h : a s = none) : many a s = ([], s) := by
  rw [many, h]

theorem many_of_some {x : α} (h : a s = some (x, rest)) (hshorter : rest.length < s.length) :
    many a s = (x :: (many a rest).1, (many a rest).2) := by
  rw [many, h]
  simp only [hshorter, if_true]

/-- What is read again and again is read every time. -/
theorem exists_of_mem_many (s : List Char) :
    ∀ x ∈ (many a s).1, ∃ s' rest, a s' = some (x, rest) := by
  fun_induction many a s with
  | case1 s hnone => simp
  | case2 s y rest hsome hshorter ys last hmany ih =>
    rw [hmany] at ih
    exact List.forall_mem_cons.mpr ⟨⟨s, rest, hsome⟩, ih⟩
  | case3 s y rest hsome hlonger => simp

end

end DiceTables.Text.Scanner
