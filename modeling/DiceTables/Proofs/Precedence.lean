import DiceTables.Proofs.Arithmetic
import DiceTables.Proofs.Scanning
import Mathlib.Data.List.Induction
import Mathlib.Data.Rat.Floor

/-!
The pass over a chain of operators against the tree that the chain stands for. In the tree products
and quotients bind tighter than sums and differences, and both are taken from the left. The tree is
evaluated the left side first, and every operator on its own: exactly, and then refused if a divisor
is zero or the result has more than 64 bits.

The pass never builds a tree. It keeps a sum back until the product after it is complete, so it works
off the operators in another order than they are written; the main statement is that this is the order
of the tree, so that not only the values agree but also which operator fails first.
-/

namespace DiceTables

open Whole Text.Scanner

/-! ### One operator -/

instance (n : Int) : Decidable (Fits n) := inferInstanceAs (Decidable (_ ∧ _))

namespace Op

/-- What arithmetic says of an operator between two numbers: its exact result, unless a divisor is zero
or the result has more than 64 bits. -/
def evaluate (op : Op) (a b : Int) : Except CalcError Int :=
  if op = .div ∧ b = 0 then .error .divisionByZero
  else if Fits (op.exact a b) then .ok (op.exact a b)
  else .error .overflow

theorem inRange_eq (n : Int) : inRange n = if Fits n then .ok n else .error .overflow := by
  split
  · next h => exact inRange_of_fits h
  · next h => exact inRange_of_not_fits h

theorem apply_eq_evaluate (op : Op) (a b : Int) : op.apply a b = op.evaluate a b := by
  cases op with
  | add => exact inRange_eq (a + b)
  | sub => exact inRange_eq (a - b)
  | mul => exact inRange_eq (a * b)
  | div =>
    by_cases hb : b = 0
    · simp [apply, evaluate, floorDiv, hb]
    · have hne : ¬ (div = div ∧ b = 0) := fun h => hb h.2
      rw [apply, floorDiv_of_ne_zero hb, inRange_eq, evaluate, if_neg hne]
      rfl

/-- The exact quotient is the floor of the fraction, whatever the signs. -/
theorem exact_div_eq_floor (a b : Int) : exact .div a b = ⌊(a : ℚ) / b⌋ := by
  have hnonneg : ∀ (a : Int) (n : Nat), a.fdiv n = ⌊(a : ℚ) / (n : ℚ)⌋ := fun a n => by
    rw [Int.fdiv_eq_ediv_of_nonneg a (Int.natCast_nonneg n), Rat.floor_intCast_div_natCast]
  obtain ⟨n, rfl | rfl⟩ := b.eq_nat_or_neg
  · simpa [exact] using hnonneg a n
  · calc exact .div a (-n) = (-a).fdiv n := by rw [exact, ← Int.neg_fdiv_neg, neg_neg]
      _ = ⌊((-a : Int) : ℚ) / (n : ℚ)⌋ := hnonneg (-a) n
      _ = ⌊(a : ℚ) / (-n : Int)⌋ := by simp [div_neg, neg_div]

end Op

/-! ### Trees -/

/-- A calculation as a tree. -/
inductive Calculation where
  /-- A number by itself. -/
  | number (n : Int)
  /-- An operator between two calculations. -/
  | node (op : Op) (left right : Calculation)

namespace Calculation

/-- The value of a calculation: that of its left side, then that of its right side, and then the
operator between them. -/
def value : Calculation → Except CalcError Int
  | number n => .ok n
  | node op left right => do
    let a ← left.value
    let b ← right.value
    op.evaluate a b

/-- The tree of a number with factors and divisors after it, taken from the left. -/
inductive IsProduct : Int → List (Op × Int) → Calculation → Prop
  /-- A number by itself is a product. -/
  | number (n : Int) : IsProduct n [] (number n)
  /-- A product with one more factor or divisor is a product. -/
  | node {n m : Int} {op : Op} {rest : List (Op × Int)} {t : Calculation}
    (hop : op.isMultiplicative = true) (ht : IsProduct n rest t) :
    IsProduct n (rest ++ [(op, m)]) (node op t (number m))

/-- The tree of a chain of operators: products with sums and differences between them, taken from the
left. -/
inductive IsSum : Int → List (Op × Int) → Calculation → Prop
  /-- A product by itself is a sum. -/
  | product {n : Int} {rest : List (Op × Int)} {t : Calculation} (ht : IsProduct n rest t) :
    IsSum n rest t
  /-- A sum to or from which one more product is added or taken away is a sum. -/
  | node {n m : Int} {op : Op} {rest factors : List (Op × Int)} {t u : Calculation}
    (hop : op.isMultiplicative = false) (ht : IsSum n rest t) (hu : IsProduct m factors u) :
    IsSum n (rest ++ (op, m) :: factors) (node op t u)

/-! ### Every chain has one tree -/

/-- A chain has the tree of a product just if it has no sum or difference in it, and then there is one
such tree. -/
theorem isProduct_iff {n : Int} {rest : List (Op × Int)} {t : Calculation} : IsProduct n rest t ↔
    (∀ p ∈ rest, p.1.isMultiplicative = true) ∧
      t = rest.foldl (fun t p => node p.1 t (number p.2)) (number n) := by
  constructor
  · intro h
    induction h with
    | number => simp
    | @node m op rest t hop _ ih =>
      obtain ⟨hrest, rfl⟩ := ih
      refine ⟨List.forall_mem_append.mpr ⟨hrest, List.forall_mem_singleton.mpr hop⟩, ?_⟩
      rw [List.foldl_append]
      rfl
  · rintro ⟨hrest, rfl⟩
    induction rest using List.reverseRecOn with
    | nil => exact .number n
    | append_singleton rest p ih =>
      obtain ⟨hrest, hp⟩ := List.forall_mem_append.mp hrest
      rw [List.foldl_append]
      exact .node (hp p List.mem_cons_self) (ih hrest)

theorem IsProduct.isMultiplicative {n : Int} {rest : List (Op × Int)} {t : Calculation}
    (h : IsProduct n rest t) : ∀ p ∈ rest, p.1.isMultiplicative = true :=
  (isProduct_iff.mp h).1

theorem IsProduct.unique {n : Int} {rest : List (Op × Int)} {t t' : Calculation}
    (h : IsProduct n rest t) (h' : IsProduct n rest t') : t = t' :=
  (isProduct_iff.mp h).2.trans (isProduct_iff.mp h').2.symm

/-- One more operator goes to the last product, or opens a new one. -/
theorem exists_isSum (n : Int) (rest : List (Op × Int)) : ∃ t, IsSum n rest t := by
  induction rest using List.reverseRecOn with
  | nil => exact ⟨_, .product (.number n)⟩
  | append_singleton rest p ih =>
    obtain ⟨op, m⟩ := p
    obtain ⟨t, ht⟩ := ih
    cases hop : op.isMultiplicative with
    | false => exact ⟨_, .node hop ht (.number m)⟩
    | true =>
      cases ht with
      | product ht => exact ⟨_, .product (.node hop ht)⟩
      | node hop' ht hu =>
        rw [List.append_assoc]
        exact ⟨_, .node hop' ht (.node hop hu)⟩

theorem IsSum.unique {n : Int} {rest : List (Op × Int)} {t t' : Calculation}
    (h : IsSum n rest t) (h' : IsSum n rest t') : t = t' := by
  induction h generalizing t' with
  | product ht =>
    cases h' with
    | product ht' => exact ht.unique ht'
    | @node _ op _ _ _ _ hop _ _ =>
      have hmul := ht.isMultiplicative _ (List.mem_append_right _ List.mem_cons_self)
      rw [hop] at hmul
      cases hmul
  | @node m op rest factors t u hop ht hu ih =>
    generalize hchain : rest ++ (op, m) :: factors = chain at h'
    cases h' with
    | product ht' =>
      have hmul := ht'.isMultiplicative (op, m) (by simp [← hchain])
      rw [hop] at hmul
      cases hmul
    | node hop' ht' hu' =>
      -- the last sum or difference of a chain is where its last product begins
      obtain ⟨rfl, hlast, rfl⟩ := append_cons_run_inj (p := fun q => q.1.isMultiplicative) hop hop'
        hu.isMultiplicative hu'.isMultiplicative hchain
      obtain ⟨rfl, rfl⟩ := Prod.mk.inj hlast
      rw [ih ht', hu.unique hu']

/-! ### The pass follows the tree -/

/-- The pass goes over a product without touching the sum before it. -/
theorem IsProduct.foldlM_step {n : Int} {rest : List (Op × Int)} {t : Calculation}
    (h : IsProduct n rest t) (total : Int) (pending : Op) :
    rest.foldlM Running.step { total, pending, product := n } =
      t.value.map fun p => { total, pending, product := p } := by
  induction h with
  | number => rfl
  | @node m op rest t hop _ ih =>
    rw [List.foldlM_append, ih, value]
    cases t.value with
    | error err => rfl
    | ok p =>
      simp only [Except.map, bind, Except.bind, List.foldlM_cons, List.foldlM_nil, Running.step, hop,
        if_true, Op.apply_eq_evaluate, value]
      cases op.evaluate p m <;> rfl

/-- The value of a tree of numbers of 64 bits is one of them. -/
theorem IsProduct.fits {n : Int} {rest : List (Op × Int)} {t : Calculation}
    (h : IsProduct n rest t) (hn : Fits n) {p : Int} (hp : t.value = .ok p) : Fits p := by
  cases h with
  | number =>
    obtain rfl := Except.ok.inj hp
    exact hn
  | node hop ht =>
    obtain ⟨a, -, hp⟩ := bind_eq_ok.mp hp
    obtain ⟨b, -, hp⟩ := bind_eq_ok.mp hp
    rw [← Op.apply_eq_evaluate] at hp
    exact (Op.apply_eq_ok.mp hp).2.2

/-- A sum or difference is kept back until the product after it is complete, but the sum before it is
taken before that product is begun. -/
theorem IsProduct.foldlM_after {m : Int} {op : Op} {factors : List (Op × Int)} {u : Calculation}
    (hop : op.isMultiplicative = false) (hu : IsProduct m factors u) (r : Running) :
    (((op, m) :: factors).foldlM Running.step r >>= Running.finish) =
      r.finish >>= fun a => u.value >>= fun b => op.evaluate a b := by
  have hstep : r.step (op, m) = r.finish.map fun a => { total := a, pending := op, product := m } := by
    rw [Running.step, hop]
    rfl
  rw [List.foldlM_cons, hstep]
  cases r.finish with
  | error err => rfl
  | ok a =>
    show (factors.foldlM Running.step { total := a, pending := op, product := m } >>= _) =
      u.value >>= _
    rw [hu.foldlM_step]
    cases u.value with
    | error err => rfl
    | ok b => exact Op.apply_eq_evaluate op a b

/-- A whole pass gives the value of the tree. -/
theorem IsSum.foldOps_eq {n : Int} {rest : List (Op × Int)} {t : Calculation} (h : IsSum n rest t)
    (hn : Fits n) : foldOps n rest = t.value := by
  induction h with
  | product ht =>
    rw [foldOps, ht.foldlM_step]
    cases hvalue : Calculation.value _ with
    | error err => rfl
    | ok p =>
      show Op.add.apply 0 p = .ok p
      exact Op.apply_eq_ok.mpr ⟨by simp, Int.zero_add p, ht.fits hn hvalue⟩
  | @node m op rest factors t u hop ht hu ih =>
    rw [foldOps, List.foldlM_append, bind_assoc]
    simp only [hu.foldlM_after hop]
    rw [value, ← ih, foldOps, bind_assoc]

end Calculation

/-- A chain of operators stands for exactly one tree, and the pass over it gives what that tree gives,
be it a value or the first thing that goes wrong. The quotients among the exact results are the floors
of the fractions. -/
theorem foldOps_eq_tree {first : Int} (hfirst : Fits first) (rest : List (Op × Int)) :
    (∃! t, Calculation.IsSum first rest t) ∧
    (∀ t, Calculation.IsSum first rest t → foldOps first rest = t.value) ∧
    ∀ a b : Int, Op.exact .div a b = ⌊(a : ℚ) / b⌋ := by
  obtain ⟨t, ht⟩ := Calculation.exists_isSum first rest
  exact ⟨⟨t, ht, fun t' ht' => ht'.unique ht⟩, fun t ht => ht.foldOps_eq hfirst,
    Op.exact_div_eq_floor⟩

/-- In `-2⁶³ / -1 - 7 / 0` the first quotient has too many bits, and that is found before the division
by zero after it. -/
theorem overflow_before_division_by_zero : Fits least ∧
    (∃! t, Calculation.IsSum least [(.div, -1), (.sub, 7), (.div, 0)] t) ∧
    ∀ t, Calculation.IsSum least [(.div, -1), (.sub, 7), (.div, 0)] t →
      foldOps least [(.div, -1), (.sub, 7), (.div, 0)] = t.value ∧ t.value = .error .overflow := by
  have hfits : Fits least := by decide
  have hpass : foldOps least [(.div, -1), (.sub, 7), (.div, 0)] = .error .overflow := rfl
  obtain ⟨hone, hvalue, -⟩ := foldOps_eq_tree hfits [(.div, -1), (.sub, 7), (.div, 0)]
  exact ⟨hfits, hone, fun t ht => ⟨hvalue t ht, (hvalue t ht).symm.trans hpass⟩⟩

/-- `20 - 7 / -2 * 3` takes `-4 * 3` away from `20`. -/
example : foldOps 20 [(.sub, 7), (.div, -2), (.mul, 3)] = .ok 32 := rfl

end DiceTables
