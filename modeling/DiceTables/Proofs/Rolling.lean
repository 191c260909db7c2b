import DiceTables.Proofs.Building
import DiceTables.Proofs.Domain
import DiceTables.Table.Outcome

/-!
Rolling a table that has been built, with a roller that keeps to the sides of the dice. The range of
the expression was found when the table was built, so every roll has a value and the value selects an
outcome. A table inside that outcome was read like the first one and lies one deeper, which gives the
induction: a roll goes through from the outermost table to the innermost, and never fails.
-/

namespace DiceTables

variable {σ : Type}

/-! ### Fair rollers -/

namespace Roller

/-- A roller that always answers, with a side of the die it was asked for, for every number of sides
that a die can have. -/
def Fair (roller : Roller σ) : Prop :=
  ∀ sides, 2 ≤ sides → sides < 65536 → Gives (roller.draw sides) fun v => 1 ≤ v ∧ v ≤ sides

theorem fair_highest : highest.Fair := fun _ hsides _ => .pure ⟨by omega, le_rfl⟩

variable {roller : Roller σ}

theorem gives_draws {sides : Nat} {P : Nat → Prop} (h : Gives (roller.draw sides) P) :
    ∀ count, Gives (roller.draws sides count) fun values =>
      values.length = count ∧ ∀ v ∈ values, P v
  | 0 => .pure ⟨rfl, by simp⟩
  | count + 1 => by
    refine h.bind fun v hv => (gives_draws h count).bind fun values hvalues => ?_
    obtain ⟨hlen, hall⟩ := hvalues
    exact .pure ⟨by rw [List.length_cons, hlen], List.forall_mem_cons.mpr ⟨hv, hall⟩⟩

theorem Fair.roll (h : roller.Fair) (d : Dice) :
    Gives (roller.roll d) fun r => r.dice = d ∧ r.Possible := by
  have hdraw := h d.sides d.two_le_sides d.sides_lt
  refine (gives_draws hdraw d.count).bind fun values hvalues => ?_
  exact .pure ⟨rfl, Rolled.possible_ofRolls hvalues.1 hvalues.2⟩

theorem Fair.evalTerm (h : roller.Fair) : ∀ t : Term, Gives (roller.evalTerm t) t.Yields
  | .num n => .pure (.num n)
  | .dice d => by
    refine (h.roll d).bind fun r hr => ?_
    obtain ⟨rfl, hr⟩ := hr
    exact .pure (.dice hr)

/-- A fair roller gives an expression a roll that its dice can show. -/
theorem Fair.eval (h : roller.Fair) (e : Expr) : Gives (roller.eval e) e.Yields := by
  refine (h.evalTerm e.first).bind fun first hfirst => ?_
  refine (Gives.mapM (fun p => ?_) e.rest).bind fun rest hrest => .pure ⟨hfirst, hrest⟩
  exact (h.evalTerm p.2).bind fun x hx => .pure ⟨rfl, hx⟩

end Roller

/-! ### The tables inside one another -/

namespace Table

/-- How many tables the limits allow inside one another within the outcomes. -/
def room (t : Table) : Nat := t.limits.maxDepth - t.depth

theorem room_of_subtable? {t inner : Table} {e : Entry} (h : t.subtable? e = some inner) :
    t.room = inner.room + 1 := by
  obtain ⟨hdepth, tail, hinline⟩ := subtable?_eq_some h
  obtain ⟨_, _, -, -, -, -, hinner, hlimits⟩ := inline?_eq_some hinline
  rw [room, room, hlimits, hinner]
  omega

theorem nonneg_of_subtable? {t inner : Table} {e : Entry} (h : t.subtable? e = some inner) :
    inner.expr.Nonneg := by
  obtain ⟨-, tail, hinline⟩ := subtable?_eq_some h
  obtain ⟨_, _, -, hexpr, -⟩ := inline?_eq_some hinline
  exact Expr.nonneg_of_ofNotation hexpr

end Table

namespace Roller

variable (roller : Roller σ)

/-- A roll without a value gives no outcome. -/
theorem resolve_of_error {t : Table} {roll : Evaluated} {err : CalcError}
    (h : roll.result = .error err) : roller.resolve t roll = pure (.error (.noValue err)) := by
  rw [resolve, resolveWithin, h]

/-- What comes of a roll with a value: the outcome it selects, and what comes of rolling the table
inside that outcome. The limits on depth never cut the chain short, since no table is read from
an outcome that lies too deep. -/
theorem resolve_of_ok {t : Table} {roll : Evaluated} {value : Int} (h : roll.result = .ok value) :
    roller.resolve t roll =
      match t.subtable? (t.entryFor value) with
      | none => pure (.ok { top := t.select roll value, nested := [] })
      | some inner => do
        let r ← roller.rollTable inner
        return r.map fun o => { top := t.select roll value, nested := o.selections } := by
  rw [resolve, resolveWithin, h]
  dsimp only
  cases hsub : t.subtable? (t.entryFor value) with
  | none => cases t.limits.maxDepth - t.depth <;> rfl
  | some inner =>
    have hroom : t.limits.maxDepth - t.depth = inner.room + 1 := Table.room_of_subtable? hsub
    simp only [hroom, rollTable, resolve, Table.room, bind_assoc]
    refine bind_congr fun innerRoll => bind_congr fun r => ?_
    cases r with
    | error err => rfl
    | ok o => rfl

end Roller

/-! ### What a roll comes to -/

/-- The selection is one of the table: its value is that of a roll of the expression, it lies between
the bounds of the table, and the text is the label of the outcome that it selects. -/
structure Selection.IsOf (s : Selection) (t : Table) : Prop where
  yields : t.expr.Yields s.roll
  result_eq : s.roll.result = .ok s.value
  low_le : t.low ≤ s.value
  le_high : s.value ≤ t.high
  text_eq : s.text = t.label (t.entryFor s.value)

/-- What comes of a table, down to the innermost table: there is a nested outcome exactly if the
selected outcome has a table inside it, and then it comes of rolling that table. -/
inductive Outcome.ComesOf (roller : Roller σ) : Outcome → Table → Prop
  /-- The selected outcome has no table inside it. -/
  | plain {o : Outcome} {t : Table} (top : o.top.IsOf t)
    (subtable : t.subtable? (t.entryFor o.top.value) = none) (nested : o.nested? = none) :
    ComesOf roller o t
  /-- The selected outcome has a table inside it. -/
  | within {o inside : Outcome} {t inner : Table} (top : o.top.IsOf t)
    (subtable : t.subtable? (t.entryFor o.top.value) = some inner)
    (nested : o.nested? = some inside)
    (rolled : ∃ s s', roller.rollTable inner s = some (.ok inside, s'))
    (comes : ComesOf roller inside inner) : ComesOf roller o t

theorem Table.isOf_select {t : Table} {roll : Evaluated} (hroll : t.expr.Yields roll) {value : Int}
    (hvalue : roll.result = .ok value) (hlow : t.low ≤ value) (hhigh : value ≤ t.high) :
    (t.select roll value).IsOf t where
  yields := hroll
  result_eq := hvalue
  low_le := hlow
  le_high := hhigh
  text_eq := rfl

/-- A fair roller always rolls a table whose numbers are at least zero. -/
theorem Roller.Fair.rollTable {roller : Roller σ} (h : roller.Fair) (t : Table)
    (hnonneg : t.expr.Nonneg) :
    Gives (roller.rollTable t) fun r => ∃ o, r = .ok o ∧ o.ComesOf roller t := by
  refine (h.eval t.expr).bind fun roll hroll => ?_
  obtain ⟨value, hvalue, hlow, hhigh⟩ := Expr.result_of_domain hnonneg t.domain_eq hroll
  have htop := Table.isOf_select hroll hvalue hlow hhigh
  rw [roller.resolve_of_ok hvalue]
  cases hsub : t.subtable? (t.entryFor value) with
  | none => exact .pure ⟨_, rfl, .plain htop hsub rfl⟩
  | some inner =>
    have hroom := Table.room_of_subtable? hsub
    have ih := h.rollTable inner (Table.nonneg_of_subtable? hsub)
    refine ih.run.bind fun r hr => ?_
    obtain ⟨⟨inside, rfl, hinside⟩, hrun⟩ := hr
    exact .pure ⟨_, rfl, .within htop hsub rfl hrun hinside⟩
termination_by t.room

/-- Rolling a table that has been built never fails, as long as the dice show one of their sides, and
neither does rolling any table inside the outcomes. -/
theorem Table.rollTable_eq_ok {header : List Char} {body : List (List Char)} {limits : Limits}
    {t : Table} (hbuilt : Table.build header body limits = .ok t) {roller : Roller σ}
    (hfair : roller.Fair) (s : σ) :
    ∃ o s', roller.rollTable t s = some (.ok o, s') ∧ o.ComesOf roller t := by
  obtain ⟨parts, -, hexpr, -⟩ := Table.build_eq_ok hbuilt
  obtain ⟨r, s', hrun, o, rfl, ho⟩ := hfair.rollTable t (Expr.nonneg_of_ofNotation hexpr) s
  exact ⟨o, s', hrun, ho⟩

/-- Doors that are open lead on to a table inside the outcome. -/
theorem open_doors : ∃ t o, Table.build "d2 Doors".toList
      ["1. Locked".toList, "2. Open, revealing d2 1 a corridor 2 a vault".toList] {} = .ok t ∧
    (t.subtable? (t.entryFor 2)).isSome = true ∧
    Roller.highest.rollTable t () = some (.ok o, ()) ∧ o.ComesOf Roller.highest t := by
  have hfacts : (Table.build "d2 Doors".toList
      ["1. Locked".toList, "2. Open, revealing d2 1 a corridor 2 a vault".toList] {}).toOption.any
      (fun t => (t.subtable? (t.entryFor 2)).isSome) = true := by decide +kernel
  obtain ⟨t, hbuilt, hsub⟩ := (Option.any_eq_true _ _).mp hfacts
  have hbuilt := toOption_eq_some.mp hbuilt
  obtain ⟨o, s', hrun, ho⟩ := Table.rollTable_eq_ok hbuilt Roller.fair_highest ()
  exact ⟨t, o, hbuilt, hsub, hrun, ho⟩

end DiceTables
