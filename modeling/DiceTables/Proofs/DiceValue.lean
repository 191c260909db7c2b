import DiceTables.Expr.Evaluated
import DiceTables.Proofs.Computation
import Mathlib.Algebra.Order.BigOperators.Group.List
import Mathlib.Algebra.Order.Ring.Nat

/-!
What dice can show, and the range of their value. A roll is possible if it has one number for each
die and each number is a side. The value of a possible roll lies between the least and the greatest
value of its dice, and both are taken: by ones throughout, and by last sides throughout.
-/

namespace DiceTables

/-! ### Groups of dice -/

namespace Rolled

/-- The rolls are ones that the dice can show. -/
structure Possible (r : Rolled) : Prop where
  length_eq : r.rolls.length = r.dice.count
  isSide : ∀ v ∈ r.rolls, 1 ≤ v ∧ v ≤ r.dice.sides

/-- With a roll for each die, as many rolls are kept as the dice say. -/
theorem length_kept {r : Rolled} (h : r.rolls.length = r.dice.count) :
    r.kept.length = r.dice.kept := by
  have hle := r.dice.kept_le_count
  simp only [kept, between, start, stop, List.length_drop, List.length_take, h, Dice.kept]
  cases hk : r.dice.keep with
  | all => simp [Keep.start, Keep.stop, Keep.count]
  | top k =>
    rw [hk] at hle
    simp only [Keep.start, Keep.stop, Keep.count] at hle ⊢
    omega
  | bottom k =>
    rw [hk] at hle
    simp only [Keep.start, Keep.stop, Keep.count] at hle ⊢
    omega

theorem mem_rolls_of_mem_kept {r : Rolled} {v : Nat} (h : v ∈ r.kept) : v ∈ r.rolls :=
  List.mem_of_mem_take (List.mem_of_mem_drop h)

/-- Rolls between two numbers have a value between the multiples of those numbers. -/
theorem value_between {r : Rolled} (hlen : r.rolls.length = r.dice.count) {a b : Nat}
    (h : ∀ v ∈ r.rolls, a ≤ v ∧ v ≤ b) :
    r.dice.kept * a ≤ r.value ∧ r.value ≤ r.dice.kept * b := by
  rw [← length_kept hlen]
  constructor
  · exact List.card_nsmul_le_sum r.kept a fun v hv => (h v (mem_rolls_of_mem_kept hv)).1
  · exact List.sum_le_card_nsmul r.kept b fun v hv => (h v (mem_rolls_of_mem_kept hv)).2

/-- The value of a possible roll lies in the range of its dice. -/
theorem Possible.value_between {r : Rolled} (h : r.Possible) :
    r.dice.least ≤ r.value ∧ r.value ≤ r.dice.greatest := by
  obtain ⟨hlow, hhigh⟩ := Rolled.value_between h.length_eq h.isSide
  exact ⟨by simpa [Dice.least] using hlow, hhigh⟩

theorem mem_rolls_ofRolls {d : Dice} {values : List Nat} {v : Nat} :
    v ∈ (ofRolls d values).rolls ↔ v ∈ values :=
  List.mem_mergeSort

theorem length_rolls_ofRolls (d : Dice) (values : List Nat) :
    (ofRolls d values).rolls.length = values.length :=
  List.length_mergeSort values

theorem possible_ofRolls {d : Dice} {values : List Nat} (hlen : values.length = d.count)
    (h : ∀ v ∈ values, 1 ≤ v ∧ v ≤ d.sides) : (ofRolls d values).Possible where
  length_eq := (length_rolls_ofRolls d values).trans hlen
  isSide v hv := h v (mem_rolls_ofRolls.mp hv)

/-- Every die of a group shows the same number. -/
def uniform (d : Dice) (v : Nat) : Rolled := ofRolls d (List.replicate d.count v)

theorem possible_uniform {d : Dice} {v : Nat} (h : 1 ≤ v ∧ v ≤ d.sides) :
    (uniform d v).Possible :=
  possible_ofRolls List.length_replicate fun _ hw => List.eq_of_mem_replicate hw ▸ h

theorem value_uniform (d : Dice) (v : Nat) : (uniform d v).value = d.kept * v := by
  have hlen : (uniform d v).rolls.length = (uniform d v).dice.count :=
    (length_rolls_ofRolls d _).trans List.length_replicate
  have hall : ∀ w ∈ (uniform d v).rolls, v ≤ w ∧ w ≤ v := by
    intro w hw
    obtain rfl : w = v := List.eq_of_mem_replicate (mem_rolls_ofRolls.mp hw)
    exact ⟨le_rfl, le_rfl⟩
  obtain ⟨hlow, hhigh⟩ := value_between hlen hall
  exact le_antisymm hhigh hlow

end Rolled

/-! ### Terms and expressions -/

/-- What rolling a term can give: a number as it is, dice with a possible roll. -/
inductive Term.Yields : Term → EvaluatedTerm → Prop
  | num (n : Int) : Term.Yields (.num n) (.num n)
  | dice {r : Rolled} (h : r.Possible) : Term.Yields (.dice r.dice) (.dice r)

namespace Term

/-- A number that is a term is at least zero. -/
def Nonneg : Term → Prop
  | num n => 0 ≤ n
  | dice _ => True

/-- The term with all its dice on the first or all on the last side. -/
def atBound (high : Bool) : Term → EvaluatedTerm
  | num n => .num n
  | dice d => .dice (.uniform d (if high then d.sides else 1))

theorem yields_atBound (high : Bool) : ∀ t : Term, t.Yields (t.atBound high)
  | num n => .num n
  | dice d => by
    have hsides := d.two_le_sides
    exact .dice (r := .uniform d _) (Rolled.possible_uniform (by cases high <;> simp <;> omega))

theorem value_atBound (high : Bool) : ∀ t : Term, (t.atBound high).value = t.bound high
  | num _ => rfl
  | dice d => by
    cases high <;>
      simp [atBound, EvaluatedTerm.value, bound, Rolled.value_uniform, Dice.least, Dice.greatest]

theorem Yields.bounds {t : Term} {x : EvaluatedTerm} :
    t.Yields x → t.bound false ≤ x.value ∧ x.value ≤ t.bound true
  | .num n => ⟨le_rfl, le_rfl⟩
  | .dice h => by
    obtain ⟨hlow, hhigh⟩ := h.value_between
    simp only [bound, EvaluatedTerm.value, Bool.false_eq_true, if_false, if_true]
    omega

theorem Nonneg.bound_nonneg {t : Term} (h : t.Nonneg) : 0 ≤ t.bound false := by
  cases t with
  | num n => exact h
  | dice d => exact Int.natCast_nonneg d.least

end Term

namespace Expr

/-- Every number of the expression is at least zero. -/
def Nonneg (e : Expr) : Prop := ∀ t ∈ e.terms, t.Nonneg

/-- What rolling an expression can give: its operators, with what each of its terms can give. -/
structure Yields (e : Expr) (ev : Evaluated) : Prop where
  first : e.first.Yields ev.first
  rest : List.Forall₂ (fun p q => p.1 = q.1 ∧ p.2.Yields q.2) e.rest ev.rest

end Expr

end DiceTables
