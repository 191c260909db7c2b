import DiceTables.Expr.Evaluated
import DiceTables.Proofs.Reading
import DiceTables.Table.Coverage

/-!
Texts on one line. A text can have a carriage return in it and stay on one line, so there are two
notions: one line is a text without a line break, an unbroken text has nothing of one. What the library
itself has to say is unbroken: notation, rolled dice, warnings and the messages of errors, all put
together from numbers and from fixed words.
-/

namespace DiceTables

/-- A text that stays on one line. -/
def OneLine (s : String) : Prop := '\n' ∉ s.toList

instance (s : String) : Decidable (OneLine s) := inferInstanceAs (Decidable (¬ _))

theorem oneLine_append_iff {s t : String} : OneLine (s ++ t) ↔ OneLine s ∧ OneLine t := by
  rw [OneLine, String.toList_append, List.mem_append, not_or, OneLine, OneLine]

theorem OneLine.append {s t : String} (hs : OneLine s) (ht : OneLine t) : OneLine (s ++ t) :=
  oneLine_append_iff.mpr ⟨hs, ht⟩

/-- A text with neither a line break nor a carriage return in it. -/
def Unbroken (s : String) : Prop := ∀ c ∈ s.toList, c ≠ '\n' ∧ c ≠ '\r'

instance (s : String) : Decidable (Unbroken s) := List.decidableBAll _ s.toList

namespace Unbroken

variable {s t : String}

theorem oneLine (h : Unbroken s) : OneLine s := fun hbreak => (h _ hbreak).1 rfl

theorem append (hs : Unbroken s) (ht : Unbroken t) : Unbroken (s ++ t) := by
  rw [Unbroken, String.toList_append]
  exact List.forall_mem_append.mpr ⟨hs, ht⟩

theorem join : ∀ {l : List String}, (∀ s ∈ l, Unbroken s) → Unbroken (String.join l)
  | [], _ => by decide
  | s :: l, h => by
    obtain ⟨hs, hl⟩ := List.forall_mem_cons.mp h
    rw [String.join_cons]
    exact hs.append (join hl)

theorem intercalate (hs : Unbroken s) : ∀ {l : List String}, (∀ t ∈ l, Unbroken t) →
    Unbroken (s.intercalate l)
  | [], _ => by simp [Unbroken]
  | [t], h => by simpa using h
  | t :: t' :: l, h => by
    obtain ⟨ht, hl⟩ := List.forall_mem_cons.mp h
    rw [String.intercalate_cons_cons]
    exact (ht.append hs).append (hs.intercalate hl)

theorem natRepr (n : Nat) : Unbroken n.repr := by
  intro c hc
  rw [Nat.toList_repr] at hc
  have hdigit := Notation.isDigit_of_mem_toDigits _ hc
  constructor <;> rintro rfl <;> exact absurd hdigit (by decide)

theorem intToString (n : Int) : Unbroken (toString n) := by
  rw [Int.toString_eq_repr, Int.repr_eq_if]
  split
  · exact natRepr _
  · exact append (by decide) (natRepr _)

/-! ### Warnings -/

theorem rangeText (lo hi : Int) : Unbroken (Warning.rangeText lo hi) := by
  unfold Warning.rangeText
  split
  · exact intToString lo
  · exact ((intToString lo).append (by decide)).append (intToString hi)

theorem warning (w : Warning) : Unbroken w.text := by
  cases w with
  | weightMismatch domain total =>
    show Unbroken ("parsed dice allow " ++ toString domain ++
      " results but entry weights sum to " ++ toString total)
    exact ((append (by decide) (intToString domain)).append (by decide)).append (intToString total)
  | overlap lo hi =>
    show Unbroken ("more than one entry for " ++ Warning.rangeText lo hi)
    exact append (by decide) (rangeText lo hi)
  | gap lo hi =>
    show Unbroken ("no entry for " ++ Warning.rangeText lo hi)
    exact append (by decide) (rangeText lo hi)
  | outOfDomain lo hi =>
    show Unbroken ("entry " ++ Warning.rangeText lo hi ++ " can never be rolled")
    exact (append (by decide) (rangeText lo hi)).append (by decide)

/-! ### Notation and rolled dice -/

theorem keep (k : Keep) : Unbroken k.text := by
  cases k with
  | all => decide
  | top kept => exact append (s := "^") (by decide) (natRepr kept)
  | bottom kept => exact append (s := "v") (by decide) (natRepr kept)

theorem dice (d : Dice) : Unbroken d.text := by
  have hcount : Unbroken (if d.count = 1 then "" else toString d.count) := by
    split
    · decide
    · exact natRepr d.count
  exact ((hcount.append (by decide)).append (natRepr d.sides)).append (keep d.keep)

theorem symbol (op : Op) : Unbroken op.symbol.toString := by
  cases op <;> decide

theorem links {α : Type} {text : α → String} (h : ∀ a, Unbroken (text a)) (l : List (Op × α)) :
    Unbroken (String.join (l.map fun (op, a) => " " ++ op.symbol.toString ++ " " ++ text a)) := by
  refine join fun s hs => ?_
  obtain ⟨⟨op, a⟩, -, rfl⟩ := List.mem_map.mp hs
  exact ((append (by decide) (symbol op)).append (by decide)).append (h a)

theorem expr (e : Expr) : Unbroken e.text := by
  have hterm : ∀ t : Term, Unbroken t.text := by
    intro t
    cases t with
    | num n => exact intToString n
    | dice d => exact dice d
  exact (hterm e.first).append (links hterm e.rest)

theorem spaced (values : List Nat) : Unbroken (Rolled.spaced values) := by
  refine intercalate (by decide) fun s hs => ?_
  obtain ⟨n, -, rfl⟩ := List.mem_map.mp hs
  exact natRepr n

theorem groups (r : Rolled) (shown : Nat) : ∀ s ∈ r.groups shown, Unbroken s := by
  have hdropped : ∀ values, Unbroken ("(" ++ Rolled.spaced values ++ ")") := fun values =>
    (append (by decide) (spaced values)).append (by decide)
  have hmore : Unbroken (toString (r.rolls.length - shown) ++ " more...") :=
    (natRepr _).append (by decide)
  have hif : ∀ {c : Prop} [Decidable c] {t : String}, Unbroken t →
      ∀ s ∈ (if c then [t] else []), Unbroken s := by
    intro c _ t ht s hs
    obtain rfl := List.mem_singleton.mp (List.mem_ite_nil_right.mp hs).2
    exact ht
  simp only [Rolled.groups, List.forall_mem_append]
  exact ⟨⟨⟨hif (hdropped _), hif (spaced _)⟩, hif (hdropped _)⟩, hif hmore⟩

theorem rolled (r : Rolled) (limit : Option Nat) : Unbroken (r.describe limit) :=
  (((dice r.dice).append (by decide)).append (intercalate (by decide) (groups r _))).append (by decide)

theorem calcError (err : CalcError) : Unbroken err.message := by
  cases err <;> decide

theorem evaluated (e : Evaluated) (limit : Option Nat) : Unbroken (e.describe limit) := by
  have hterm : ∀ t : EvaluatedTerm, Unbroken (t.describe limit) := by
    intro t
    cases t with
    | num n => exact intToString n
    | dice r => exact rolled r limit
  refine (((hterm e.first).append (links hterm e.rest)).append (by decide)).append ?_
  split
  · exact intToString _
  · exact calcError _

end Unbroken

end DiceTables
