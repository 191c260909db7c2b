import DiceTables.Proofs.Arithmetic
import DiceTables.Proofs.DiceValue
import DiceTables.Proofs.Draft

/-!
The range of an expression is exact. Three passes over the same operators run side by side: one with
the terms at the bounds for the least value, one with what the terms have rolled, one with the bounds
for the greatest value. They stay in order throughout. The order of their products turns round while
a product is subtracted, which is why the bounds are exchanged there and once more at a divisor.

Since numbers and dice are never negative, the two outer passes also show that nothing overflows in
the middle one. They are themselves rolls, so both ends of the range are taken.
-/

namespace DiceTables

open Whole

/-! ### One product -/

/-- Three numbers from zero up, in ascending order. -/
structure Nested (a b c : Int) : Prop where
  nonneg : 0 ≤ a
  left : a ≤ b
  right : b ≤ c

namespace Nested

variable {a b c x y z a' c' : Int}

theorem mul (h : Nested a b c) (hx : Nested x y z) (ha : Op.mul.apply a x = .ok a')
    (hc : Op.mul.apply c z = .ok c') : ∃ b', Op.mul.apply b y = .ok b' ∧ Nested a' b' c' := by
  obtain ⟨-, rfl, -⟩ := Op.apply_eq_ok.mp ha
  obtain ⟨-, rfl, hfits⟩ := Op.apply_eq_ok.mp hc
  have hb : 0 ≤ b := h.nonneg.trans h.left
  have hy : 0 ≤ y := hx.nonneg.trans hx.left
  have hlow : a * x ≤ b * y := mul_le_mul h.left hx.left hx.nonneg hb
  have hhigh : b * y ≤ c * z := mul_le_mul h.right hx.right hy (hb.trans h.right)
  refine ⟨b * y, Op.apply_eq_ok.mpr ⟨by simp, rfl, ?_⟩, mul_nonneg h.nonneg hx.nonneg, hlow, hhigh⟩
  exact .of_nonneg (mul_nonneg hb hy) (hhigh.trans hfits.2)

/-- A larger divisor makes a smaller quotient, so the divisors come the other way round. -/
theorem div (h : Nested a b c) (hx : Nested x y z) (ha : Op.div.apply a z = .ok a')
    (hc : Op.div.apply c x = .ok c') : ∃ b', Op.div.apply b y = .ok b' ∧ Nested a' b' c' := by
  obtain ⟨-, rfl, -⟩ := Op.apply_eq_ok.mp ha
  obtain ⟨hne, rfl, hfits⟩ := Op.apply_eq_ok.mp hc
  have hb : 0 ≤ b := h.nonneg.trans h.left
  have hxpos : 0 < x := lt_of_le_of_ne hx.nonneg (hne rfl).symm
  have hypos : 0 < y := hxpos.trans_le hx.left
  obtain ⟨hlow₀, hlow⟩ := Op.exact_div_le h.nonneg h.left hypos hx.right
  obtain ⟨hmid₀, hhigh⟩ := Op.exact_div_le hb h.right hxpos hx.left
  refine ⟨_, Op.apply_eq_ok.mpr ⟨fun _ => hypos.ne', rfl, ?_⟩, hlow₀, hlow, hhigh⟩
  exact .of_nonneg hmid₀ (hhigh.trans hfits.2)

/-- One more factor or divisor, taken at the bounds for the smaller and for the larger result. -/
theorem apply {op : Op} (hop : op.isMultiplicative = true) (h : Nested a b c) (hx : Nested x y z)
    (ha : op.apply a (if op = .div then z else x) = .ok a')
    (hc : op.apply c (if op = .div then x else z) = .ok c') :
    ∃ b', op.apply b y = .ok b' ∧ Nested a' b' c' := by
  cases op with
  | add | sub => simp [Op.isMultiplicative] at hop
  | mul => exact h.mul hx ha hc
  | div => exact h.div hx ha hc

end Nested

/-! ### One step of the passes -/

namespace Running

theorem step_of_multiplicative {r r' : Running} {op : Op} {n : Int}
    (hop : op.isMultiplicative = true) :
    r.step (op, n) = .ok r' ↔ ∃ p, op.apply r.product n = .ok p ∧ { r with product := p } = r' := by
  simp only [step, hop, if_true, bind_eq_ok, pure, Except.pure, Except.ok.injEq]

theorem step_of_additive {r r' : Running} {op : Op} {n : Int} (hop : op.isMultiplicative = false) :
    r.step (op, n) = .ok r' ↔
      ∃ sum, r.finish = .ok sum ∧ { total := sum, pending := op, product := n } = r' := by
  simp only [step, hop, Bool.false_eq_true, if_false, bind_eq_ok, pure, Except.pure,
    Except.ok.injEq, finish]

/-- Whether the product at hand will be subtracted. -/
def subtracts (r : Running) : Bool := r.pending = .sub

theorem subtracts_step {r r' : Running} {op : Op} {n : Int} (h : r.step (op, n) = .ok r') :
    r'.subtracts = if op.isMultiplicative then r.subtracts else op = .sub := by
  cases hop : op.isMultiplicative with
  | true =>
    obtain ⟨p, -, rfl⟩ := (step_of_multiplicative hop).mp h
    rfl
  | false =>
    obtain ⟨sum, -, rfl⟩ := (step_of_additive hop).mp h
    rfl

/-- The passes `l` and `h` enclose the pass `r`: sums are in order, and so are the products at
hand, the other way round if they will be subtracted. -/
structure Encloses (l r h : Running) : Prop where
  pending_left : l.pending = r.pending
  pending_right : h.pending = r.pending
  total : l.total ≤ r.total ∧ r.total ≤ h.total
  product : (r.pending = .add ∧ Nested l.product r.product h.product) ∨
    (r.pending = .sub ∧ Nested h.product r.product l.product)

namespace Encloses

variable {l r h l' h' : Running}

/-- Where both enclosing passes end with a value, so does the one between them. -/
theorem finish (hE : Encloses l r h) {a c : Int} (ha : l.finish = .ok a) (hc : h.finish = .ok c) :
    ∃ b, r.finish = .ok b ∧ a ≤ b ∧ b ≤ c := by
  unfold Running.finish at ha hc ⊢
  rw [hE.pending_left] at ha
  rw [hE.pending_right] at hc
  obtain ⟨-, rfl, hfitsl⟩ := Op.apply_eq_ok.mp ha
  obtain ⟨-, rfl, hfitsr⟩ := Op.apply_eq_ok.mp hc
  have htotal := hE.total
  have hle : r.pending.exact l.total l.product ≤ r.pending.exact r.total r.product ∧
      r.pending.exact r.total r.product ≤ r.pending.exact h.total h.product := by
    rcases hE.product with ⟨hp, hn⟩ | ⟨hp, hn⟩ <;> rw [hp] <;> simp only [Op.exact] <;>
      exact ⟨by have := hn.left; have := hn.right; omega, by have := hn.left; have := hn.right; omega⟩
  have hdiv : r.pending ≠ .div := by
    rcases hE.product with ⟨hp, -⟩ | ⟨hp, -⟩ <;> rw [hp] <;> decide
  exact ⟨_, Op.apply_eq_ok.mpr ⟨fun h => absurd h hdiv, rfl, hfitsl.of_between hfitsr hle⟩, hle⟩

/-- A step of all three passes with what a term has rolled and its two bounds. -/
theorem step (hE : Encloses l r h) {op : Op} {t : Term} {x : Int}
    (hx : Nested (t.bound false) x (t.bound true)) {flipped : Bool}
    (hflip : flipped = ((if op.isMultiplicative then r.subtracts else op = .sub) != (op = .div)))
    (hl : l.step (op, t.bound (false != flipped)) = .ok l')
    (hh : h.step (op, t.bound (true != flipped)) = .ok h') :
    ∃ r', r.step (op, x) = .ok r' ∧ Encloses l' r' h' := by
  cases hop : op.isMultiplicative with
  | true =>
    -- The product grows by a factor or a divisor; which of the outer two is larger is as before.
    obtain ⟨p, hp, rfl⟩ := (step_of_multiplicative hop).mp hl
    obtain ⟨q, hq, rfl⟩ := (step_of_multiplicative hop).mp hh
    rcases hE.product with ⟨hpend, hn⟩ | ⟨hpend, hn⟩
    · have hf : flipped = (op = .div : Bool) := by simp [hflip, hop, subtracts, hpend]
      obtain ⟨b, hb, hn'⟩ := hn.apply hop hx
        (by rw [← hp, hf]; by_cases hd : op = .div <;> simp [hd])
        (by rw [← hq, hf]; by_cases hd : op = .div <;> simp [hd])
      exact ⟨_, (step_of_multiplicative hop).mpr ⟨b, hb, rfl⟩, hE.pending_left, hE.pending_right,
        hE.total, .inl ⟨hpend, hn'⟩⟩
    · have hf : flipped = !(op = .div : Bool) := by simp [hflip, hop, subtracts, hpend]
      obtain ⟨b, hb, hn'⟩ := hn.apply hop hx
        (by rw [← hq, hf]; by_cases hd : op = .div <;> simp [hd])
        (by rw [← hp, hf]; by_cases hd : op = .div <;> simp [hd])
      exact ⟨_, (step_of_multiplicative hop).mpr ⟨b, hb, rfl⟩, hE.pending_left, hE.pending_right,
        hE.total, .inr ⟨hpend, hn'⟩⟩
  | false =>
    -- The products at hand join the sums, and the term opens new ones.
    obtain ⟨a, ha, rfl⟩ := (step_of_additive hop).mp hl
    obtain ⟨c, hc, rfl⟩ := (step_of_additive hop).mp hh
    obtain ⟨b, hb, htotal⟩ := hE.finish ha hc
    refine ⟨_, (step_of_additive hop).mpr ⟨b, hb, rfl⟩, rfl, rfl, htotal, ?_⟩
    cases op with
    | add => exact .inl ⟨rfl, by simpa [hflip, Op.isMultiplicative] using hx⟩
    | sub => exact .inr ⟨rfl, by simpa [hflip, Op.isMultiplicative] using hx⟩
    | mul | div => simp [Op.isMultiplicative] at hop

/-- What holds after one step holds after a whole pass. -/
theorem run {terms : List (Op × Term)} {rolled : List (Op × EvaluatedTerm)}
    (hrolled : List.Forall₂ (fun p q => p.1 = q.1 ∧ p.2.Yields q.2) terms rolled) :
    (∀ p ∈ terms, p.2.Nonneg) → ∀ {l r h l' h' : Running}, Encloses l r h →
    (Expr.boundTerms false r.subtracts terms).foldlM Running.step l = .ok l' →
    (Expr.boundTerms true r.subtracts terms).foldlM Running.step h = .ok h' →
    ∃ r', (rolled.map fun (op, t) => (op, t.value)).foldlM Running.step r = .ok r' ∧
      Encloses l' r' h' := by
  induction hrolled with
  | nil =>
    intro _ l r h l' h' hE hl hh
    obtain rfl : l = l' := Except.ok.inj hl
    obtain rfl : h = h' := Except.ok.inj hh
    exact ⟨r, rfl, hE⟩
  | @cons p q terms rolled hpq _ ih =>
    intro hnonneg l r h l' h' hE hl hh
    obtain ⟨op, t⟩ := p
    obtain ⟨_, x⟩ := q
    obtain ⟨rfl, hx⟩ := hpq
    obtain ⟨ht, hnonneg⟩ := List.forall_mem_cons.mp hnonneg
    obtain ⟨l₁, hl₁, hl⟩ := foldlM_cons_eq_ok.mp hl
    obtain ⟨h₁, hh₁, hh⟩ := foldlM_cons_eq_ok.mp hh
    have hnest : Nested (t.bound false) x.value (t.bound true) :=
      ⟨ht.bound_nonneg, hx.bounds.1, hx.bounds.2⟩
    obtain ⟨r₁, hr₁, hE₁⟩ := hE.step hnest rfl hl₁ hh₁
    rw [← subtracts_step hr₁] at hl hh
    obtain ⟨r', hr', hE'⟩ := ih hnonneg hE₁ hl hh
    exact ⟨r', foldlM_cons_eq_ok.mpr ⟨r₁, hr₁, hr'⟩, hE'⟩

end Encloses

end Running

/-! ### Whole expressions -/

namespace Expr

variable {e : Expr}

/-- Where both bounds have a value, every roll has one, and it lies between the bounds. -/
theorem result_between_bounds (hnonneg : e.Nonneg) {a c : Int} (hlow : e.bound false = .ok a)
    (hhigh : e.bound true = .ok c) {ev : Evaluated} (hev : e.Yields ev) :
    ∃ b, ev.result = .ok b ∧ a ≤ b ∧ b ≤ c := by
  obtain ⟨l, hl, hlow⟩ := bind_eq_ok.mp hlow
  obtain ⟨h, hh, hhigh⟩ := bind_eq_ok.mp hhigh
  have hfirst : e.first.Nonneg := hnonneg e.first List.mem_cons_self
  have hrest : ∀ p ∈ e.rest, p.2.Nonneg := fun p hp =>
    hnonneg p.2 (List.mem_cons_of_mem _ (List.mem_map_of_mem hp))
  have hE : Running.Encloses { product := e.first.bound false } { product := ev.first.value }
      { product := e.first.bound true } :=
    ⟨rfl, rfl, ⟨le_rfl, le_rfl⟩,
      .inl ⟨rfl, hfirst.bound_nonneg, hev.first.bounds.1, hev.first.bounds.2⟩⟩
  obtain ⟨r, hr, hE⟩ := Running.Encloses.run hev.rest hrest hE hl hh
  obtain ⟨b, hb, hle⟩ := hE.finish hlow hhigh
  exact ⟨b, bind_eq_ok.mpr ⟨r, hr, hb⟩, hle⟩

/-- The terms after the first, with their dice on the first or the last side, whichever leads to
the least or to the greatest value. -/
def rollAtBounds (high : Bool) : (subtracted : Bool) → List (Op × Term) → List (Op × EvaluatedTerm)
  | _, [] => []
  | subtracted, (op, t) :: rest =>
    let subtracted := if op.isMultiplicative then subtracted else op = .sub
    let flipped := subtracted != (op = .div)
    (op, t.atBound (high != flipped)) :: rollAtBounds high subtracted rest

/-- The roll with the least or with the greatest value. -/
def atBound (e : Expr) (high : Bool) : Evaluated where
  first := e.first.atBound high
  rest := rollAtBounds high false e.rest

theorem map_value_rollAtBounds (high : Bool) : ∀ (subtracted : Bool) (terms : List (Op × Term)),
    (rollAtBounds high subtracted terms).map (fun (op, t) => (op, t.value)) =
      boundTerms high subtracted terms
  | _, [] => rfl
  | subtracted, (op, t) :: rest => by
    simp only [rollAtBounds, boundTerms, List.map_cons, Term.value_atBound,
      map_value_rollAtBounds high _ rest]

theorem forall₂_rollAtBounds (high : Bool) : ∀ (subtracted : Bool) (terms : List (Op × Term)),
    List.Forall₂ (fun p q => p.1 = q.1 ∧ p.2.Yields q.2) terms (rollAtBounds high subtracted terms)
  | _, [] => .nil
  | _, (_, t) :: rest => .cons ⟨rfl, t.yields_atBound _⟩ (forall₂_rollAtBounds high _ rest)

theorem yields_atBound (e : Expr) (high : Bool) : e.Yields (e.atBound high) where
  first := e.first.yields_atBound high
  rest := forall₂_rollAtBounds high false e.rest

theorem result_atBound (e : Expr) (high : Bool) : (e.atBound high).result = e.bound high := by
  simp only [Evaluated.result, atBound, Term.value_atBound, map_value_rollAtBounds, bound]

/-- The ends of the range are the two bounds. -/
theorem domain_eq_ok (hnonneg : e.Nonneg) {low high : Int} :
    e.domain = .ok (low, high) ↔ e.bound false = .ok low ∧ e.bound true = .ok high := by
  simp only [domain, least, greatest, bind_eq_ok, pure, Except.pure, Except.ok.injEq, Prod.mk.injEq]
  constructor
  · rintro ⟨a, ha, c, hc, hmin, hmax⟩
    -- The roll for the least value lies between the bounds too, so they are in order.
    obtain ⟨b, hb, hab, hbc⟩ := result_between_bounds hnonneg ha hc (e.yields_atBound false)
    have hac : a ≤ c := hab.trans hbc
    rw [min_eq_left hac] at hmin
    rw [max_eq_right hac] at hmax
    exact ⟨hmin ▸ ha, hmax ▸ hc⟩
  · rintro ⟨hlow, hhigh⟩
    obtain ⟨b, hb, hab, hbc⟩ := result_between_bounds hnonneg hlow hhigh (e.yields_atBound false)
    exact ⟨low, hlow, high, hhigh, min_eq_left (hab.trans hbc), max_eq_right (hab.trans hbc)⟩

/-- Every roll has a value in the range. -/
theorem result_of_domain (hnonneg : e.Nonneg) {low high : Int} (hdom : e.domain = .ok (low, high))
    {ev : Evaluated} (hev : e.Yields ev) : ∃ v, ev.result = .ok v ∧ low ≤ v ∧ v ≤ high :=
  have ⟨hlow, hhigh⟩ := (domain_eq_ok hnonneg).mp hdom
  result_between_bounds hnonneg hlow hhigh hev

end Expr

/-- The range of any expression lies within 64 bits, its lower end first. -/
theorem Expr.fits_of_domain {e : Expr} {low high : Int} (h : e.domain = .ok (low, high)) :
    Fits low ∧ low ≤ high ∧ Fits high := by
  obtain ⟨a, ha, h⟩ := bind_eq_ok.mp h
  obtain ⟨c, hc, h⟩ := bind_eq_ok.mp h
  obtain ⟨rfl, rfl⟩ : min a c = low ∧ max a c = high := by simpa [pure, Except.pure] using h
  have hafits := fits_of_foldOps ha
  have hcfits := fits_of_foldOps hc
  refine ⟨⟨le_min hafits.1 hcfits.1, (min_le_left a c).trans hafits.2⟩, min_le_max,
    hafits.1.trans (le_max_left a c), max_le hafits.2 hcfits.2⟩

/-! ### Expressions from notation -/

theorem TermDraft.nonneg_of_build {limits : Limits} {d : TermDraft} {t : Term}
    (h : d.build limits = .ok t) : t.Nonneg := by
  cases d with
  | num n =>
    obtain rfl : Term.num n = t := by simpa [TermDraft.build] using h
    exact Int.natCast_nonneg n
  | dice r =>
    obtain ⟨d, -, rfl⟩ := map_eq_ok.mp h
    trivial

theorem ExprDraft.nonneg_of_build {limits : Limits} {d : ExprDraft} {e : Expr}
    (h : d.build limits = .ok e) : e.Nonneg := by
  obtain ⟨-, hfirst, hrest⟩ := ExprDraft.build_eq_ok.mp h
  refine List.forall_mem_cons.mpr ⟨TermDraft.nonneg_of_build hfirst, fun t ht => ?_⟩
  obtain ⟨q, hq, rfl⟩ := List.mem_map.mp ht
  obtain ⟨p, -, -, hp⟩ := exists_mem_of_forall₂ hrest q hq
  exact TermDraft.nonneg_of_build hp

theorem Expr.nonneg_of_ofNotation {s : List Char} {limits : Limits} {e : Expr}
    (h : Expr.ofNotation s limits = .ok e) : e.Nonneg := by
  obtain ⟨-, d, -, hbuild⟩ := ofNotation_eq_ok.mp h
  exact ExprDraft.nonneg_of_build hbuild

/-- An expression read from notation has a range exactly when every roll of it has a value. The
range is then exact: every value lies in it, and some rolls have its ends as their values. -/
theorem Expr.domain_exact {s : List Char} {limits : Limits} {e : Expr}
    (h : Expr.ofNotation s limits = .ok e) :
    ((∃ range, e.domain = .ok range) ↔ ∀ ev, e.Yields ev → ∃ v, ev.result = .ok v) ∧
    ∀ low high, e.domain = .ok (low, high) →
      (∀ ev, e.Yields ev → ∃ v, ev.result = .ok v ∧ low ≤ v ∧ v ≤ high) ∧
      (∃ ev, e.Yields ev ∧ ev.result = .ok low) ∧ (∃ ev, e.Yields ev ∧ ev.result = .ok high) := by
  have hnonneg := nonneg_of_ofNotation h
  refine ⟨⟨?_, ?_⟩, ?_⟩
  · rintro ⟨⟨low, high⟩, hdom⟩ ev hev
    obtain ⟨v, hv, -⟩ := result_of_domain hnonneg hdom hev
    exact ⟨v, hv⟩
  · intro hall
    obtain ⟨low, hlow⟩ := hall _ (e.yields_atBound false)
    obtain ⟨high, hhigh⟩ := hall _ (e.yields_atBound true)
    rw [result_atBound] at hlow hhigh
    exact ⟨(low, high), (domain_eq_ok hnonneg).mpr ⟨hlow, hhigh⟩⟩
  · intro low high hdom
    obtain ⟨hlow, hhigh⟩ := (domain_eq_ok hnonneg).mp hdom
    refine ⟨fun ev hev => result_of_domain hnonneg hdom hev, ?_, ?_⟩
    · exact ⟨_, e.yields_atBound false, (result_atBound e false).trans hlow⟩
    · exact ⟨_, e.yields_atBound true, (result_atBound e true).trans hhigh⟩

/-- A product is added and a quotient by a die is subtracted: the range goes from the least product
with the greatest quotient to the greatest product with the least quotient. -/
theorem Expr.range_with_subtracted_quotient :
    ∃ e, Expr.ofNotation "2d6 * 3 - 20 / d4 + 1".toList {} = .ok e ∧ e.domain = .ok (-13, 32) ∧
      (∀ ev, e.Yields ev → ∃ v, ev.result = .ok v ∧ -13 ≤ v ∧ v ≤ 32) ∧
      (∃ ev, e.Yields ev ∧ ev.result = .ok (-13)) ∧ (∃ ev, e.Yields ev ∧ ev.result = .ok 32) := by
  have hrange : ((Expr.ofNotation "2d6 * 3 - 20 / d4 + 1".toList {}).toOption.bind
      fun e => e.domain.toOption) = some (-13, 32) := by decide +kernel
  obtain ⟨e, he, hdom⟩ := Option.bind_eq_some_iff.mp hrange
  rw [toOption_eq_some] at he hdom
  exact ⟨e, he, hdom, (domain_exact he).2 _ _ hdom⟩

end DiceTables
