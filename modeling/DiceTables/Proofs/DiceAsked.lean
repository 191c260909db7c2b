import DiceTables.Proofs.Nesting
import DiceTables.Table.Locate

/-!
How many dice a roll asks for. The roller keeps a record, and where it has nothing left to answer it
goes on with zeros, so that every die is counted that the roll of a table would have asked for. An
expression asks for the dice of its groups, of which the limits allow so many, each with so many
dice; a roll of a table goes through one expression for each table on its way down, and there are no
more of these than the limits on depth allow.
-/

namespace DiceTables

variable {σ α β : Type} {limits : Limits}

/-! ### Rollers that never run out -/

/-- A roller that answers with zeros once there are no rolls left, and remembers that it does. -/
def Roller.endless (roller : Roller σ) : Roller (Option σ) where
  draw := fun sides state =>
    match state.bind (roller.draw sides) with
    | some (value, state) => some (value, some state)
    | none => some (0, none)

/-! ### Counting -/

/-- The second computation gives what the first one gives, as long as the first one gives anything.
It always ends, and it asks for at most `n` dice, each with a number of sides of a kind. -/
def Asks (n : Nat) (P : Nat → Prop) (x : StateT σ Option α)
    (y : StateT (Option σ × List Nat) Option α) : Prop :=
  ∀ state asked, ∃ a state' more, y (state, asked) = some (a, state', more ++ asked) ∧
    state.bind x = state'.map (a, ·) ∧ more.length ≤ n ∧ ∀ sides ∈ more, P sides

namespace Asks

variable {n m : Nat} {P : Nat → Prop} {x : StateT σ Option α}
  {y : StateT (Option σ × List Nat) Option α} {f : α → StateT σ Option β}
  {g : α → StateT (Option σ × List Nat) Option β}

theorem pure (a : α) : Asks 0 P (Pure.pure a : StateT σ Option α) (Pure.pure a) := by
  intro state asked
  refine ⟨a, state, [], rfl, ?_, le_rfl, by simp⟩
  cases state <;> rfl

theorem mono (h : Asks n P x y) (hle : n ≤ m) : Asks m P x y := by
  intro state asked
  obtain ⟨a, state', more, hy, hx, hlength, hmore⟩ := h state asked
  exact ⟨a, state', more, hy, hx, hlength.trans hle, hmore⟩

/-- Two steps ask for the dice of both. -/
theorem bind (hx : Asks n P x y) (hf : ∀ a, Asks m P (f a) (g a)) :
    Asks (n + m) P (x >>= f) (y >>= g) := by
  intro state asked
  obtain ⟨a, middle, first, hy, hx, hfirst, hfirstAll⟩ := hx state asked
  obtain ⟨b, state', second, hg, hf, hsecond, hsecondAll⟩ := hf a middle (first ++ asked)
  refine ⟨b, state', second ++ first, ?_, ?_, ?_, ?_⟩
  · rw [List.append_assoc]
    exact bind_eq_some.mpr ⟨a, _, hy, hg⟩
  · have hsteps : state.bind (x >>= f) = (state.bind x).bind fun p => f p.1 p.2 := by
      cases state <;> rfl
    rw [hsteps, hx, Option.bind_map]
    exact hf
  · rw [List.length_append]
    omega
  · intro sides hsides
    rcases List.mem_append.mp hsides with hsides | hsides
    · exact hsecondAll sides hsides
    · exact hfirstAll sides hsides

/-- One step after the other, for each element of a list. -/
theorem mapM {count : α → Nat} : ∀ {xs : List α}, (∀ a ∈ xs, Asks (count a) P (f a) (g a)) →
    Asks (xs.map count).sum P (xs.mapM f) (xs.mapM g)
  | [], _ => by
    rw [List.mapM_nil, List.mapM_nil]
    exact .pure []
  | a :: xs, h => by
    obtain ⟨ha, hxs⟩ := List.forall_mem_cons.mp h
    rw [List.mapM_cons, List.mapM_cons, List.map_cons, List.sum_cons]
    refine ha.bind fun b => ?_
    exact (Asks.mapM hxs).bind fun bs => .pure _

end Asks

/-! ### What a roll asks for -/

namespace Term

/-- Number of dice that a term asks for. -/
def diceAsked : Term → Nat
  | num _ => 0
  | dice d => d.count

/-- The limits bound the dice of a term. -/
theorem Buildable.bounds {d : Dice} (h : (dice d).Buildable limits) :
    d.count ≤ limits.maxDice.toNat ∧ d.sides ≤ limits.maxSides.toNat := by
  obtain ⟨r, hr⟩ := h
  obtain ⟨hallowed, hcount, hsides, -⟩ := Dice.Request.of_build_eq_ok hr
  rw [hcount, hsides]
  exact ⟨hallowed.count_le, hallowed.sides_le⟩

theorem Buildable.diceAsked_le {t : Term} (h : t.Buildable limits) :
    t.diceAsked ≤ limits.maxDice.toNat := by
  cases t with
  | num n => exact Nat.zero_le _
  | dice d => exact h.bounds.1

/-- Only groups of dice ask for dice. -/
theorem sum_diceAsked_le {bound : Nat} : ∀ {terms : List Term},
    (∀ t ∈ terms, t.diceAsked ≤ bound) →
      (terms.map diceAsked).sum ≤ terms.countP isDice * bound
  | [], _ => by simp
  | t :: terms, h => by
    obtain ⟨ht, hterms⟩ := List.forall_mem_cons.mp h
    have ih := sum_diceAsked_le hterms
    rw [List.map_cons, List.sum_cons, List.countP_cons]
    cases t with
    | num n => simpa [diceAsked, isDice] using ih
    | dice d =>
      simp only [isDice, if_true, Nat.add_mul, Nat.one_mul]
      omega

end Term

/-- Sides that a die may have under some limits. -/
def Limits.AllowsSides (limits : Limits) (sides : Nat) : Prop :=
  2 ≤ sides ∧ sides ≤ limits.maxSides.toNat

namespace Roller

variable (roller : Roller σ)

theorem asks_draw {P : Nat → Prop} {sides : Nat} (h : P sides) :
    Asks 1 P (roller.draw sides) (roller.endless.recording.draw sides) := by
  intro state asked
  have hrecord : ∀ value state', roller.endless.draw sides state = some (value, state') →
      roller.endless.recording.draw sides (state, asked) =
        some (value, state', [sides] ++ asked) := by
    intro value state' hdraw
    show (roller.endless.draw sides state >>= fun p => some (p.1, p.2, sides :: asked)) = _
    rw [hdraw]
    rfl
  cases hdrawn : state.bind (roller.draw sides) with
  | none =>
    have hendless : roller.endless.draw sides state = some (0, none) := by simp [endless, hdrawn]
    exact ⟨0, none, [sides], hrecord _ _ hendless, rfl, le_rfl, List.forall_mem_singleton.mpr h⟩
  | some drawn =>
    obtain ⟨value, state'⟩ := drawn
    have hendless : roller.endless.draw sides state = some (value, some state') := by
      simp [endless, hdrawn]
    exact ⟨value, some state', [sides], hrecord _ _ hendless, rfl, le_rfl,
      List.forall_mem_singleton.mpr h⟩

theorem asks_draws {P : Nat → Prop} {sides : Nat} (h : P sides) : ∀ count,
    Asks count P (roller.draws sides count) (roller.endless.recording.draws sides count)
  | 0 => .pure []
  | count + 1 => by
    have hmore := (asks_draw roller h).bind fun value =>
      (asks_draws h count).bind fun values => .pure (value :: values)
    exact hmore.mono (by omega)

theorem asks_evalTerm {t : Term} (h : t.Buildable limits) :
    Asks t.diceAsked limits.AllowsSides (roller.evalTerm t)
      (roller.endless.recording.evalTerm t) := by
  cases t with
  | num n => exact .pure _
  | dice d =>
    have hsides : limits.AllowsSides d.sides := ⟨d.two_le_sides, h.bounds.2⟩
    have hroll : Asks d.count limits.AllowsSides (roller.roll d)
        (roller.endless.recording.roll d) :=
      (asks_draws roller hsides d.count).bind fun _ => .pure _
    exact hroll.bind fun _ => .pure _

/-- An expression asks for the dice of its groups. -/
theorem asks_eval {e : Expr} (h : e.Buildable limits) :
    Asks (limits.maxTerms * limits.maxDice.toNat) limits.AllowsSides (roller.eval e)
      (roller.endless.recording.eval e) := by
  obtain ⟨hfirst, hrest⟩ := List.forall_mem_cons.mp h.terms
  have hterm : ∀ p ∈ e.rest, Asks p.2.diceAsked limits.AllowsSides
      (do return (p.1, ← roller.evalTerm p.2))
      (do return (p.1, ← roller.endless.recording.evalTerm p.2)) :=
    fun p hp => (asks_evalTerm roller (hrest p.2 (List.mem_map_of_mem hp))).bind fun _ => .pure _
  have hall := (asks_evalTerm roller hfirst).bind fun first =>
    (Asks.mapM hterm).bind fun rest => .pure (Evaluated.mk first rest)
  refine hall.mono ?_
  calc e.first.diceAsked + ((e.rest.map fun p => p.2.diceAsked).sum + 0)
      = (e.terms.map Term.diceAsked).sum := by
        rw [Expr.terms, List.map_cons, List.sum_cons, List.map_map, Nat.add_zero]
        rfl
    _ ≤ e.diceCount * limits.maxDice.toNat :=
        Term.sum_diceAsked_le fun t ht => (h.terms t ht).diceAsked_le
    _ ≤ limits.maxTerms * limits.maxDice.toNat := Nat.mul_le_mul_right _ h.diceCount_le

/-- A table asks for the dice of one expression, and so does each table inside the outcomes. -/
theorem asks_resolve {t : Table} (h : t.Regular limits) (roll : Evaluated) :
    Asks (t.room * (limits.maxTerms * limits.maxDice.toNat)) limits.AllowsSides
      (roller.resolve t roll) (roller.endless.recording.resolve t roll) := by
  cases hresult : roll.result with
  | error err =>
    rw [resolve_of_error _ hresult, resolve_of_error _ hresult]
    exact (Asks.pure _).mono (Nat.zero_le _)
  | ok value =>
    rw [resolve_of_ok _ hresult, resolve_of_ok _ hresult]
    cases hsub : t.subtable? (t.entryFor value) with
    | none => exact (Asks.pure _).mono (Nat.zero_le _)
    | some inner =>
      have hinner := (Table.encloses_of_entryFor hsub).regular h
      have hroom := Table.room_of_subtable? hsub
      rw [hroom, Nat.succ_mul, Nat.add_comm]
      refine Asks.bind (m := 0) ?_ fun _ => .pure _
      exact (asks_eval roller hinner.buildable).bind fun innerRoll => asks_resolve hinner innerRoll
termination_by t.room

theorem asks_rollTable {t : Table} (h : t.Regular limits) :
    Asks ((limits.maxDepth + 1) * (limits.maxTerms * limits.maxDice.toNat)) limits.AllowsSides
      (roller.rollTable t) (roller.endless.recording.rollTable t) := by
  have hroll := (asks_eval roller h.buildable).bind fun roll => asks_resolve roller h roll
  have hroom : t.room ≤ limits.maxDepth := by
    rw [Table.room, h.limits_eq]
    exact Nat.sub_le _ _
  refine hroll.mono ?_
  rw [Nat.succ_mul, Nat.add_comm]
  exact Nat.add_le_add_right (Nat.mul_le_mul_right _ hroom) _

end Roller

/-! ### Tables -/

namespace Table

/-- The table has been built under some limits, from a header and lines, from a text of its own, or
as one of the tables of a text. -/
inductive BuiltUnder (limits : Limits) (t : Table) : Prop
  | lines {header : List Char} {body : List (List Char)} (h : build header body limits = .ok t)
  | text {s : List Char} (h : ofText s limits = .ok t)
  | found {s : List Char} (h : t ∈ allIn s limits)

theorem BuiltUnder.regular {t : Table} (h : t.BuiltUnder limits) : t.Regular limits := by
  cases h with
  | lines h => exact (regular_of_build h).1
  | text h =>
    obtain ⟨header, body, h⟩ := ofText_eq_ok h
    exact (regular_of_build h).1
  | found h =>
    obtain ⟨block, -, hblock⟩ := List.mem_filterMap.mp h
    exact (regular_of_build (toOption_eq_some.mp hblock)).1

/-- A roll of a table asks for no more dice than the limits on tables, groups and dice multiply to,
and only for dice whose sides the limits allow. This holds even where the roller runs out of rolls:
then the dice are counted that it would have been asked for had it gone on with zeros. -/
theorem dice_asked_bounded {t : Table} (hbuilt : t.BuiltUnder limits) (roller : Roller σ)
    (state : σ) : ∃ r state' asked,
      roller.endless.recording.rollTable t (some state, []) = some (r, state', asked) ∧
      roller.rollTable t state = state'.map (r, ·) ∧
      asked.length ≤ (limits.maxDepth + 1) * limits.maxTerms * limits.maxDice.toNat ∧
      ∀ sides ∈ asked, 2 ≤ sides ∧ sides ≤ limits.maxSides.toNat := by
  obtain ⟨r, state', asked, hrecord, hroll, hlength, hsides⟩ :=
    roller.asks_rollTable hbuilt.regular (some state) []
  refine ⟨r, state', asked, ?_, hroll, ?_, hsides⟩
  · rw [hrecord, List.append_nil]
  · rw [Nat.mul_assoc]
    exact hlength

/-- The only roll there is opens a door, so the roll of the corridor and the vault behind it is one
die short. -/
theorem dice_asked_bounded_doors : ∃ t r state' asked, build "d2 Doors".toList
      ["1. Locked".toList, "2. Open, revealing d2 1 a corridor 2 a vault".toList] {} = .ok t ∧
    Roller.replay.endless.recording.rollTable t (some [2], []) = some (r, state', asked) ∧
    Roller.replay.rollTable t [2] = state'.map (r, ·) ∧ asked.length ≤ (3 + 1) * 20 * 100 ∧
    ∀ sides ∈ asked, 2 ≤ sides ∧ sides ≤ 1000 := by
  have hfacts : (build "d2 Doors".toList ["1. Locked".toList,
      "2. Open, revealing d2 1 a corridor 2 a vault".toList] {}).toOption.isSome = true := by
    decide +kernel
  obtain ⟨t, hbuilt⟩ := Option.isSome_iff_exists.mp hfacts
  have hbuilt := toOption_eq_some.mp hbuilt
  obtain ⟨r, state', asked, hrecord, hroll, hlength, hsides⟩ :=
    dice_asked_bounded (.lines hbuilt) Roller.replay [2]
  exact ⟨t, r, state', asked, hbuilt, hrecord, hroll, hlength, hsides⟩

end Table

end DiceTables
