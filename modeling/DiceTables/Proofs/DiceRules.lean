import DiceTables.Dice.Basic
import Mathlib.Order.Nat
import Mathlib.Tactic.SplitIfs

/-!
The rules for groups of dice. A request is built exactly if it keeps all five of them. The dice then
hold the numbers that were asked for: the limits are words of 16 bits, so whatever keeps to them fits
such words, and the greatest value, as a product of two of them, fits a word of 32 bits. A request that
is refused hears of the first rule it breaks, with its own numbers.
-/

namespace DiceTables

variable {limits : Limits}

/-! ### Values of built dice -/

namespace Dice

theorem kept_lt (d : Dice) : d.kept < 65536 :=
  d.kept_le_count.trans_lt d.count_lt

/-- The greatest value fits a word of 32 bits. -/
theorem greatest_lt (d : Dice) : d.greatest < 4294967296 := by
  have hkept : d.kept ≤ 65535 := Nat.le_of_lt_succ d.kept_lt
  have hsides : d.sides ≤ 65535 := Nat.le_of_lt_succ d.sides_lt
  calc d.greatest = d.kept * d.sides := rfl
    _ ≤ 65535 * 65535 := Nat.mul_le_mul hkept hsides
    _ < 4294967296 := by decide

/-- The product in words of 32 bits does not wrap. -/
theorem toNat_kept_mul_sides (d : Dice) :
    (UInt32.ofNat d.kept * UInt32.ofNat d.sides).toNat = d.kept * d.sides := by
  have hkept : d.kept < 4294967296 := d.kept_lt.trans (by decide)
  have hsides : d.sides < 4294967296 := d.sides_lt.trans (by decide)
  rw [UInt32.toNat_mul, UInt32.toNat_ofNat_of_lt' hkept, UInt32.toNat_ofNat_of_lt' hsides]
  exact Nat.mod_eq_of_lt d.greatest_lt

end Dice

/-! ### The rules and their order -/

/-- How many rules are checked before the one that an error is about. -/
def DiceError.place : DiceError → Nat
  | noDice => 0
  | tooFewSides _ => 1
  | tooManyDice _ _ => 2
  | tooManySides _ _ => 3
  | keepOutOfRange _ _ => 4

namespace Dice.Request

/-- The request keeps all the rules. -/
structure Allowed (r : Request) (limits : Limits) : Prop where
  one_le_count : 1 ≤ r.count
  two_le_sides : 2 ≤ r.sides
  count_le : r.count ≤ limits.maxDice.toNat
  sides_le : r.sides ≤ limits.maxSides.toNat
  keep_between : ∀ kept, r.keep = .top kept ∨ r.keep = .bottom kept → 1 ≤ kept ∧ kept ≤ r.count

/-- The request breaks the rule that an error is about, and the error has the numbers of the request
and the limit. -/
def Breaks (r : Request) (limits : Limits) : DiceError → Prop
  | .noDice => ¬ 1 ≤ r.count
  | .tooFewSides sides => sides = r.sides ∧ ¬ 2 ≤ sides
  | .tooManyDice count max => count = r.count ∧ max = limits.maxDice.toNat ∧ ¬ count ≤ max
  | .tooManySides sides max => sides = r.sides ∧ max = limits.maxSides.toNat ∧ ¬ sides ≤ max
  | .keepOutOfRange kept count =>
    (r.keep = .top kept ∨ r.keep = .bottom kept) ∧ count = r.count ∧ ¬ (1 ≤ kept ∧ kept ≤ count)

/-- The error is about the first rule that the request breaks. -/
def BreaksFirst (r : Request) (limits : Limits) (err : DiceError) : Prop :=
  r.Breaks limits err ∧ ∀ other, r.Breaks limits other → err.place ≤ other.place

/-- A request that keeps all the rules breaks none of them. -/
theorem Allowed.not_breaks {r : Request} (h : r.Allowed limits) (err : DiceError) :
    ¬ r.Breaks limits err := by
  cases err with
  | noDice => exact fun hbreak => hbreak h.one_le_count
  | tooFewSides sides =>
    rintro ⟨rfl, hbreak⟩
    exact hbreak h.two_le_sides
  | tooManyDice count max =>
    rintro ⟨rfl, rfl, hbreak⟩
    exact hbreak h.count_le
  | tooManySides sides max =>
    rintro ⟨rfl, rfl, hbreak⟩
    exact hbreak h.sides_le
  | keepOutOfRange kept count =>
    rintro ⟨hkeep, rfl, hbreak⟩
    exact hbreak (h.keep_between kept hkeep)

/-- A request breaks each rule in one way. -/
theorem Breaks.eq {r : Request} {err other : DiceError} (h : r.Breaks limits err)
    (hother : r.Breaks limits other) (hplace : err.place = other.place) : err = other := by
  cases err <;> cases other <;> cases hplace
  case noDice => rfl
  case tooFewSides => rw [h.1, hother.1]
  case tooManyDice => rw [h.1, hother.1, h.2.1, hother.2.1]
  case tooManySides => rw [h.1, hother.1, h.2.1, hother.2.1]
  case keepOutOfRange kept count kept' count' =>
    obtain ⟨hkeep, rfl, -⟩ := h
    obtain ⟨hkeep', rfl, -⟩ := hother
    have hsame : kept = kept' := by
      rcases hkeep with h | h <;> rcases hkeep' with h' | h' <;> rw [h] at h' <;> cases h' <;> rfl
    rw [hsame]

theorem BreaksFirst.eq {r : Request} {err other : DiceError} (h : r.BreaksFirst limits err)
    (hother : r.BreaksFirst limits other) : err = other :=
  h.1.eq hother.1 (le_antisymm (h.2 other hother.1) (hother.2 err h.1))

/-! ### Building -/

/-- Keeping all dice needs no check, and the other modes are checked by their number. -/
theorem keep_between_iff {r : Request} (hcount : r.count ≠ 0) :
    (∀ kept, r.keep = .top kept ∨ r.keep = .bottom kept → 1 ≤ kept ∧ kept ≤ r.count) ↔
      ¬ (r.keep.count r.count = 0 ∨ r.count < r.keep.count r.count) := by
  cases r.keep with
  | all => simp [Keep.count, hcount]
  | top kept =>
    simp only [Keep.count, Keep.top.injEq, reduceCtorEq, or_false, forall_eq']
    omega
  | bottom kept =>
    simp only [Keep.count, Keep.bottom.injEq, reduceCtorEq, false_or, forall_eq']
    omega

/-- What keeps to the limits fits words of 16 bits as it is. -/
theorem Allowed.narrow_eq {r : Request} (h : r.Allowed limits) :
    narrow r.count = r.count ∧ narrow r.sides = r.sides ∧ r.keep.map narrow = r.keep := by
  have hcount : r.count < 65536 := h.count_le.trans_lt limits.maxDice.toNat_lt
  refine ⟨narrow_of_lt hcount,
    narrow_of_lt (h.sides_le.trans_lt limits.maxSides.toNat_lt), ?_⟩
  cases hkeep : r.keep with
  | all => rfl
  | top kept =>
    have hkept := (h.keep_between kept (.inl hkeep)).2
    rw [Keep.map, narrow_of_lt (hkept.trans_lt hcount)]
  | bottom kept =>
    have hkept := (h.keep_between kept (.inr hkeep)).2
    rw [Keep.map, narrow_of_lt (hkept.trans_lt hcount)]

/-- What is built keeps all the rules and holds the numbers that were asked for. -/
theorem of_build_eq_ok {r : Request} {d : Dice} (h : r.build limits = .ok d) :
    r.Allowed limits ∧ d.count = r.count ∧ d.sides = r.sides ∧ d.keep = r.keep := by
  unfold build at h
  split_ifs at h with hcount hsides hmaxDice hmaxSides hkept
  have hallowed : r.Allowed limits :=
    ⟨by omega, by omega, by omega, by omega, (keep_between_iff hcount).mpr hkept⟩
  cases h
  exact ⟨hallowed, hallowed.narrow_eq⟩

/-- What is refused breaks the rule it is refused for. -/
theorem breaks_of_build {r : Request} {err : DiceError} (h : r.build limits = .error err) :
    r.Breaks limits err := by
  unfold build at h
  split_ifs at h with hcount hsides hmaxDice hmaxSides hkept <;> cases h
  · simp [Breaks, hcount]
  · exact ⟨rfl, by omega⟩
  · exact ⟨rfl, rfl, by omega⟩
  · exact ⟨rfl, rfl, by omega⟩
  · refine ⟨?_, rfl, by omega⟩
    cases hkeep : r.keep with
    | all => simp [hkeep, Keep.count, hcount] at hkept
    | top kept => exact .inl rfl
    | bottom kept => exact .inr rfl

/-- All rules before the one that a request is refused for have been checked. -/
theorem place_le_of_build {r : Request} {err other : DiceError} (h : r.build limits = .error err)
    (hother : r.Breaks limits other) : err.place ≤ other.place := by
  unfold build at h
  split_ifs at h <;> cases h <;> cases other <;>
    simp only [Breaks, DiceError.place] at hother ⊢ <;> omega

theorem breaksFirst_of_build {r : Request} {err : DiceError} (h : r.build limits = .error err) :
    r.BreaksFirst limits err :=
  ⟨breaks_of_build h, fun _ hother => place_le_of_build h hother⟩

/-- Building goes through exactly for the requests that keep all the rules. -/
theorem allowed_iff_exists_build {r : Request} :
    r.Allowed limits ↔ ∃ d, r.build limits = .ok d := by
  constructor
  · intro h
    cases hbuild : r.build limits with
    | ok d => exact ⟨d, rfl⟩
    | error err => exact absurd (breaks_of_build hbuild) (h.not_breaks err)
  · rintro ⟨d, hd⟩
    exact (of_build_eq_ok hd).1

/-- Building fails exactly with the error about the first rule that the request breaks. -/
theorem build_eq_error {r : Request} {err : DiceError} :
    r.build limits = .error err ↔ r.BreaksFirst limits err := by
  refine ⟨breaksFirst_of_build, fun h => ?_⟩
  cases hbuild : r.build limits with
  | ok d => exact absurd h.1 ((of_build_eq_ok hbuild).1.not_breaks err)
  | error other => rw [(breaksFirst_of_build hbuild).eq h]

/-- A request is built if and only if it keeps all the rules. The dice then hold the numbers asked for,
though they were narrowed to words, and the greatest value is the product of kept dice and sides, also
in words of 32 bits. Otherwise the request is refused for the first rule that it breaks. -/
theorem build_decided_by_rules (r : Request) (limits : Limits) :
    (r.Allowed limits ↔ ∃ d, r.build limits = .ok d) ∧
    (∀ d, r.build limits = .ok d →
      d.count = r.count ∧ d.sides = r.sides ∧ d.keep = r.keep ∧
      d.greatest = r.keep.count r.count * r.sides ∧
      (UInt32.ofNat d.kept * UInt32.ofNat d.sides).toNat = d.greatest) ∧
    ∀ err, r.build limits = .error err ↔ r.BreaksFirst limits err := by
  refine ⟨allowed_iff_exists_build, fun d hd => ?_, fun err => build_eq_error⟩
  obtain ⟨-, hcount, hsides, hkeep⟩ := of_build_eq_ok hd
  refine ⟨hcount, hsides, hkeep, ?_, d.toNat_kept_mul_sides⟩
  rw [greatest, kept, hcount, hsides, hkeep]

/-- Four dice of which the three highest count are built as they are asked for. -/
theorem build_four_keep_three : ∃ d,
    (Request.mk 4 6 (.top 3)).build {} = .ok d ∧ d.count = 4 ∧ d.sides = 6 ∧ d.keep = .top 3 ∧
      d.greatest = 18 ∧ (UInt32.ofNat d.kept * UInt32.ofNat d.sides).toNat = d.greatest := by
  obtain ⟨hallowed, hbuilt, -⟩ := build_decided_by_rules ⟨4, 6, .top 3⟩ {}
  have hrules : (Request.mk 4 6 (.top 3)).Allowed {} :=
    ⟨by decide, by decide, by decide, by decide, by rintro kept (⟨⟨⟩⟩ | ⟨⟨⟩⟩); decide⟩
  obtain ⟨d, hd⟩ := hallowed.mp hrules
  exact ⟨d, hd, hbuilt d hd⟩

end Dice.Request

end DiceTables
