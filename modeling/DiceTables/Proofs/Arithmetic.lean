import DiceTables.Expr.Fold
import DiceTables.Proofs.Computation
import Mathlib.Algebra.Order.Ring.Int

/-!
Arithmetic of 64 bits against exact arithmetic. An operator has a value exactly when its exact result
fits the range and nothing is divided by zero, and then that result is the value. A clamped sum or
difference is the exact one where that one fits.
-/

namespace DiceTables

namespace Whole

/-- The number is one of the numbers of 64 bits. -/
def Fits (n : Int) : Prop := least ≤ n ∧ n ≤ greatest

theorem Fits.of_between {a b n : Int} (ha : Fits a) (hb : Fits b) (h : a ≤ n ∧ n ≤ b) : Fits n :=
  ⟨ha.1.trans h.1, h.2.trans hb.2⟩

theorem Fits.of_nonneg {n : Int} (hn : 0 ≤ n) (h : n ≤ greatest) : Fits n :=
  ⟨(by decide : least ≤ 0).trans hn, h⟩

theorem clamp_of_fits {n : Int} (h : Fits n) : clamp n = n := by
  obtain ⟨hl, hg⟩ := h
  rw [clamp, min_eq_left hg, max_eq_right hl]

theorem addClamped_of_fits {a b : Int} (h : Fits (a + b)) : addClamped a b = a + b :=
  clamp_of_fits h

theorem subClamped_of_fits {a b : Int} (h : Fits (a - b)) : subClamped a b = a - b :=
  clamp_of_fits h

theorem clamp_le_greatest (n : Int) : clamp n ≤ greatest :=
  max_le (by decide) (min_le_right n greatest)

end Whole

namespace Op

open Whole

/-- The result of an operator among all whole numbers. -/
def exact : Op → Int → Int → Int
  | add, a, b => a + b
  | sub, a, b => a - b
  | mul, a, b => a * b
  | div, a, b => a.fdiv b

theorem inRange_eq_ok {n m : Int} : inRange n = .ok m ↔ n = m ∧ Fits m := by
  unfold inRange checked Fits
  split
  · next k hk =>
    obtain ⟨hfits, rfl⟩ := by simpa using hk
    grind
  · next hk =>
    have hout : ¬(least ≤ n ∧ n ≤ greatest) := by simpa using hk
    grind

theorem inRange_of_fits {n : Int} (h : Fits n) : inRange n = .ok n := inRange_eq_ok.mpr ⟨rfl, h⟩

theorem inRange_of_not_fits {n : Int} (h : ¬ Fits n) : inRange n = .error .overflow := by
  have hnone : checked n = none := if_neg h
  rw [inRange, hnone]

/-! ### Quotients -/

/-- A remainder has the sign of the dividend. -/
theorem tmod_neg_iff {a b : Int} (hdvd : ¬ b ∣ a) : a.tmod b < 0 ↔ a < 0 := by
  have hne : a.tmod b ≠ 0 := fun hzero => hdvd (Int.dvd_of_tmod_eq_zero hzero)
  constructor
  · intro hneg
    by_contra ha
    have := Int.tmod_nonneg b (not_lt.mp ha)
    omega
  · intro ha
    have hneg : 0 ≤ (-a).tmod b := Int.tmod_nonneg b (by omega)
    rw [Int.neg_tmod] at hneg
    omega

/-- Rounding towards zero is rounding down where the signs agree. -/
theorem fdiv_of_signs_agree {a b : Int} (hdvd : ¬ b ∣ a) (hsigns : a < 0 ↔ b < 0) :
    a.fdiv b = a.tdiv b := by
  rw [Int.fdiv_eq_tdiv, if_neg hdvd]
  rcases lt_or_ge a 0 with ha | ha
  · have hb : b < 0 := hsigns.mp ha
    simp [ha.not_ge, hb.not_ge, Int.sign_eq_neg_one_of_neg hb]
  · have hb : 0 ≤ b := by omega
    simp [ha, hb]

/-- Where the signs differ, rounding towards zero is rounding up. -/
theorem fdiv_of_signs_differ {a b : Int} (hb : b ≠ 0) (hdvd : ¬ b ∣ a) (hsigns : ¬ (a < 0 ↔ b < 0)) :
    a.fdiv b = a.tdiv b - 1 ∧ a.tdiv b ≤ 0 := by
  rw [Int.fdiv_eq_tdiv, if_neg hdvd]
  rcases lt_or_ge a 0 with ha | ha
  · have hpos : 0 < b := by omega
    have hle : (-a).tdiv (-b) ≤ 0 := Int.tdiv_nonpos_of_nonneg_of_nonpos (by omega) (by omega)
    rw [Int.neg_tdiv_neg] at hle
    exact ⟨by simp [ha.not_ge, hpos.le, Int.sign_eq_one_of_pos hpos], hle⟩
  · have hneg : b < 0 := by omega
    exact ⟨by simp [ha, hneg.not_ge], Int.tdiv_nonpos_of_nonneg_of_nonpos ha hneg.le⟩

/-- One less than a quotient from zero down fits only where the quotient does. -/
theorem inRange_sub_one {n : Int} (h : n ≤ 0) :
    (do let quotient ← inRange n; inRange (quotient - 1)) = inRange (n - 1) := by
  by_cases hn : Fits n
  · rw [inRange_of_fits hn]
    rfl
  · have hbelow : ¬ Fits (n - 1) := fun hfits =>
      hn ⟨hfits.1.trans (by omega), h.trans (by decide)⟩
    rw [inRange_of_not_fits hn, inRange_of_not_fits hbelow]
    rfl

/-- A quotient is rounded down, whatever the signs. -/
theorem floorDiv_of_ne_zero {a b : Int} (hb : b ≠ 0) : floorDiv a b = inRange (a.fdiv b) := by
  rw [floorDiv, if_neg hb]
  by_cases hdvd : b ∣ a
  · rw [Int.fdiv_eq_tdiv, if_pos hdvd, Int.sub_zero]
    simp [Int.tmod_eq_zero_of_dvd hdvd]
  · have hne : a.tmod b ≠ 0 := fun hzero => hdvd (Int.dvd_of_tmod_eq_zero hzero)
    by_cases hsigns : a < 0 ↔ b < 0
    · rw [fdiv_of_signs_agree hdvd hsigns]
      simp [tmod_neg_iff hdvd, hsigns]
    · obtain ⟨heq, hle⟩ := fdiv_of_signs_differ hb hdvd hsigns
      rw [heq, ← inRange_sub_one hle]
      simp [hne, tmod_neg_iff hdvd, hsigns]

/-! ### Values of operators -/

/-- An operator has a value exactly when its exact result fits and no divisor is zero. -/
theorem apply_eq_ok {op : Op} {a b c : Int} :
    op.apply a b = .ok c ↔ (op = .div → b ≠ 0) ∧ op.exact a b = c ∧ Fits c := by
  cases op with
  | add | sub | mul => simp [apply, exact, inRange_eq_ok]
  | div =>
    by_cases hb : b = 0
    · simp [apply, floorDiv, hb]
    · simp [apply, exact, floorDiv_of_ne_zero, inRange_eq_ok, hb]

/-- The quotient of numbers from zero up grows with the dividend and falls with the divisor. -/
theorem exact_div_le {a b c d : Int} (ha : 0 ≤ a) (hab : a ≤ b) (hc : 0 < c) (hcd : c ≤ d) :
    0 ≤ exact .div a d ∧ exact .div a d ≤ exact .div b c := by
  simp only [exact, Int.fdiv_eq_ediv_of_nonneg _ hc.le, Int.fdiv_eq_ediv_of_nonneg _ (hc.le.trans hcd)]
  have hq : 0 ≤ a / d := Int.ediv_nonneg ha (hc.le.trans hcd)
  refine ⟨hq, (Int.le_ediv_iff_mul_le hc).mpr ?_⟩
  calc a / d * c ≤ a / d * d := Int.mul_le_mul_of_nonneg_left hcd hq
    _ ≤ a := Int.ediv_mul_le a (by omega)
    _ ≤ b := hab

end Op

/-- The value of a chain of operators is one of the numbers of 64 bits. -/
theorem fits_of_foldOps {first : Int} {rest : List (Op × Int)} {v : Int}
    (h : foldOps first rest = .ok v) : Whole.Fits v := by
  obtain ⟨r, -, hfinish⟩ := bind_eq_ok.mp h
  exact (Op.apply_eq_ok.mp hfinish).2.2

end DiceTables
