import DiceTables.Expr.Op
import DiceTables.Notation.Alphabet
import DiceTables.Table.Line
import DiceTables.Text.Letter

/-!
How classes of characters lie to one another. A class that is given by a table with few code points
is gone through character by character; `codes` lists them. Of the table of capitals only the ends of
its runs are looked at: all but two of them lead to small letters beyond ASCII, so what notation reads
in lower case was written in ASCII.
-/

namespace DiceTables.Text

/-- The code points of a table of ranges. -/
def codes (table : List (Nat × Nat)) : List Nat :=
  table.flatMap fun r => List.range' r.1 (r.2 + 1 - r.1)

theorem mem_codes_of_within {n : Nat} : ∀ {table : List (Nat × Nat)}, within n table = true →
    n ∈ codes table
  | (first, last) :: rest, h => by
    rw [within] at h
    rw [codes, List.flatMap_cons, List.mem_append]
    split at h
    · exact .inr (mem_codes_of_within h)
    · have := of_decide_eq_true h
      rw [List.mem_range'_1]
      omega

/-- What holds of all characters of a table holds of each character of the class. -/
theorem forall_of_codes {table : List (Nat × Nat)} {p : Char → Bool}
    (h : ((codes table).all fun n => p (Char.ofNat n)) = true) {c : Char}
    (hc : within c.toNat table = true) : p c = true := by
  rw [← Char.ofNat_toNat c]
  exact List.all_eq_true.mp h c.toNat (mem_codes_of_within hc)

/-! ### Classes apart from each other -/

/-- Two classes without a common character. -/
def Apart (p q : Char → Bool) : Prop := ∀ c, p c = true → q c = false

theorem Apart.symm {p q : Char → Bool} (h : Apart p q) : Apart q p := by
  intro c hq
  refine Bool.eq_false_iff.mpr fun hp => ?_
  rw [h c hp] at hq
  cases hq

theorem blank_apart_digit : Apart isBlank isDecimalDigit := by
  have hall : ((codes blanks).all fun n => !isDecimalDigit (Char.ofNat n)) = true := by
    decide +kernel
  intro c hc
  simpa using forall_of_codes (p := (!isDecimalDigit ·)) hall hc

theorem isNoise_of_isBlank {c : Char} (h : isBlank c = true) : isNoise c = true := by
  simp [isNoise, h]

theorem noise_apart_digit : Apart isNoise isDecimalDigit := by
  intro c hc
  simp only [isNoise, Bool.or_eq_true, decide_eq_true_eq] at hc
  obtain (((hblank | hmark) | rfl) | rfl) | rfl := hc
  · exact blank_apart_digit c hblank
  · simpa using forall_of_codes (p := (!isDecimalDigit ·)) (by decide +kernel) hmark
  · decide +kernel
  · decide +kernel
  · decide +kernel

theorem noise_apart_alphanumeric : Apart isNoise isAlphanumeric := by
  intro c hc
  simp only [isNoise, Bool.or_eq_true, decide_eq_true_eq] at hc
  obtain (((hblank | hmark) | rfl) | rfl) | rfl := hc
  · simpa using forall_of_codes (p := (!isAlphanumeric ·)) (by decide +kernel) hblank
  · simpa using forall_of_codes (p := (!isAlphanumeric ·)) (by decide +kernel) hmark
  · decide +kernel
  · decide +kernel
  · decide +kernel

/-- The only digits of notation are those from `0` to `9`. -/
theorem isDigit_of_mem_alphabet {c : Char} (hc : c ∈ Notation.alphabet)
    (hdigit : isDecimalDigit c = true) : c.isDigit = true := by
  have hall : (Notation.alphabet.all fun c => !isDecimalDigit c || c.isDigit) = true := by
    decide +kernel
  simpa [hdigit] using List.all_eq_true.mp hall c hc

/-! ### Lower case -/

/-- A small form that is not the code point itself comes from one of the runs. -/
theorem exists_of_smallForm (n : Nat) : ∀ runs : List CapitalRun, smallForm n runs = n ∨
    ∃ run ∈ runs, run.first ≤ n ∧ n ≤ run.last ∧ smallForm n runs = (n + run.shift).toNat
  | [] => .inl rfl
  | run :: runs => by
    rw [smallForm]
    split
    · rcases exists_of_smallForm n runs with hsame | ⟨run', hmem, hrun'⟩
      · exact .inl hsame
      · exact .inr ⟨run', List.mem_cons_of_mem run hmem, hrun'⟩
    · next hlast =>
      split
      · next hfirst => exact .inr ⟨run, List.mem_cons_self, hfirst.1, Nat.le_of_not_lt hlast, rfl⟩
      · exact .inl rfl

/-- All small forms of a run are characters beyond ASCII. -/
def CapitalRun.leadsFar (run : CapitalRun) : Bool :=
  128 ≤ run.first + run.shift && run.last + run.shift < 0x110000 &&
    (run.last + run.shift < 0xD800 || 0xE000 ≤ run.first + run.shift)

/-- Only two runs lead into ASCII: the capitals from `A` to `Z`, and the sign for kelvin, which becomes
`k`. -/
theorem of_not_leadsFar {run : CapitalRun} (hmem : run ∈ capitals) (h : run.leadsFar = false) :
    (run.first = 0x41 ∧ run.last = 0x5A ∧ run.shift = 32) ∨
      (run.first = 0x212A ∧ run.last = 0x212A ∧ run.shift = -8383) := by
  have hall : (capitals.all fun run => run.leadsFar ||
      (run.first = 0x41 && run.last = 0x5A && run.shift = 32) ||
        (run.first = 0x212A && run.last = 0x212A && run.shift = -8383)) = true := by
    decide +kernel
  have hrun := List.all_eq_true.mp hall run hmem
  simpa [h, and_assoc] using hrun

theorem toNat_ofNat_of_isValidChar {n : Nat} (h : n.isValidChar) : (Char.ofNat n).toNat = n := by
  rw [Char.ofNat, dif_pos h]
  rfl

theorem le_toNat_ofNat_of_leadsFar {run : CapitalRun} (h : run.leadsFar = true) {n : Nat}
    (hfirst : run.first ≤ n) (hlast : n ≤ run.last) :
    128 ≤ (Char.ofNat (n + run.shift).toNat).toNat := by
  simp only [CapitalRun.leadsFar, Bool.and_eq_true, Bool.or_eq_true, decide_eq_true_eq] at h
  have hvalid : (n + run.shift).toNat.isValidChar := by
    rw [Nat.isValidChar]
    omega
  rw [toNat_ofNat_of_isValidChar hvalid]
  omega

/-- A capital that a run brings into ASCII, other than the sign for kelvin, is one from `A` to `Z`. -/
theorem capital_of_run {run : CapitalRun} (hrun : run ∈ capitals) {n : Nat} (hfirst : run.first ≤ n)
    (hlast : n ≤ run.last) {d : Char} (h : d = Char.ofNat (n + run.shift).toNat) (hd : d.toNat < 128)
    (hk : d ≠ 'k') : n = d.toNat - 32 ∧ 0x61 ≤ d.toNat ∧ d.toNat ≤ 0x7A := by
  have hnear : run.leadsFar = false := by
    refine Bool.eq_false_iff.mpr fun hfar => ?_
    have hle := le_toNat_ofNat_of_leadsFar hfar hfirst hlast
    rw [← h] at hle
    exact absurd hd (Nat.not_lt.mpr hle)
  rcases of_not_leadsFar hrun hnear with ⟨hA, hZ, hshift⟩ | ⟨hkelvin, hkelvin', hshift⟩
  · rw [hA] at hfirst
    rw [hZ] at hlast
    have hsum : (n + run.shift).toNat = n + 32 := by
      rw [hshift]
      omega
    have hvalid : (n + 32).isValidChar := by
      rw [Nat.isValidChar]
      omega
    have hcode : d.toNat = n + 32 := by rw [h, hsum, toNat_ofNat_of_isValidChar hvalid]
    omega
  · obtain rfl : n = 0x212A := by omega
    rw [hshift] at h
    exact absurd h hk

/-- What becomes a character of ASCII in lower case is that character, its capital, or one of the two
letters from elsewhere that become `i` and `k`. -/
theorem eq_or_capital_of_mem_lowerCase {c d : Char} (h : d ∈ lowerCase c) (hd : d.toNat < 128)
    (hi : d ≠ 'i') (hk : d ≠ 'k') :
    c = d ∨ (c.toNat = d.toNat - 32 ∧ 0x61 ≤ d.toNat ∧ d.toNat ≤ 0x7A) := by
  rw [lowerCase] at h
  split at h
  · simp only [List.mem_cons, List.not_mem_nil, or_false] at h
    rcases h with rfl | rfl
    · exact absurd rfl hi
    · exact absurd hd (by decide)
  · have hform := List.mem_singleton.mp h
    rcases exists_of_smallForm c.toNat capitals with hsame | ⟨run, hrun, hfirst, hlast, hshift⟩
    · rw [hsame, Char.ofNat_toNat] at hform
      exact .inl hform.symm
    · rw [hshift] at hform
      exact .inr (capital_of_run hrun hfirst hlast hform hd hk)

/-- Only characters of the alphabet become characters of the alphabet. -/
theorem mem_alphabet_of_mem_lowerCase {c d : Char} (h : d ∈ lowerCase c) (hd : d ∈ Notation.alphabet) :
    c ∈ Notation.alphabet := by
  have hall : (Notation.alphabet.all fun d => d.toNat < 128 && d ≠ 'i' && d ≠ 'k' &&
      (d.toNat < 0x61 || 0x7A < d.toNat ||
        Notation.alphabet.contains (Char.ofNat (d.toNat - 32)))) = true := by
    decide +kernel
  have hd' := List.all_eq_true.mp hall d hd
  simp only [Bool.and_eq_true, Bool.or_eq_true, decide_eq_true_eq, List.contains_iff_mem] at hd'
  obtain ⟨⟨⟨hascii, hi⟩, hk⟩, hcapital⟩ := hd'
  rcases eq_or_capital_of_mem_lowerCase h hascii hi hk with rfl | ⟨hcode, hlow, hhigh⟩
  · exact hd
  · rw [← Char.ofNat_toNat c, hcode]
    rcases hcapital with (hcapital | hcapital) | hcapital
    · omega
    · omega
    · exact hcapital

/-- Only parentheses become parentheses. -/
theorem isParenthesis_of_mem_lowerCase {c d : Char} (h : d ∈ lowerCase c)
    (hd : Notation.isParenthesis d = true) : Notation.isParenthesis c = true := by
  simp only [Notation.isParenthesis, Bool.or_eq_true, decide_eq_true_eq] at hd
  have hdcases : d.toNat < 0x61 ∧ d ≠ 'i' ∧ d ≠ 'k' := by
    obtain rfl | rfl := hd <;> decide
  obtain ⟨hcode, hi, hk⟩ := hdcases
  rcases eq_or_capital_of_mem_lowerCase h (Nat.lt_trans hcode (by decide)) hi hk with rfl | ⟨-, hlow, -⟩
  · simpa [Notation.isParenthesis] using hd
  · omega

end DiceTables.Text

/-! ### Strangers -/

namespace DiceTables.Notation

open Text

theorem mem_strangers {s : List Char} {c : Char} :
    c ∈ strangers s ↔ c ∈ s ∧ isBlank c = false ∧ c ∉ alphabet := by
  simp [strangers]

theorem strangers_eq_nil_iff {s : List Char} :
    strangers s = [] ↔ ∀ c ∈ s, isBlank c = true ∨ c ∈ alphabet := by
  rw [List.eq_nil_iff_forall_not_mem]
  simp only [mem_strangers, not_and, Classical.not_not]
  refine forall₂_congr fun c _ => ?_
  cases isBlank c <;> simp

end DiceTables.Notation

/-! ### The letters and signs of headers -/

namespace DiceTables.Line

open Text Notation

theorem of_isKeepSign {c : Char} (h : isKeepSign c = true) :
    isBlank c = false ∧ isDecimalDigit c = false ∧ c ∈ alphabet := by
  simp only [isKeepSign, Bool.or_eq_true, decide_eq_true_eq] at h
  obtain (rfl | rfl) | rfl := h <;> decide +kernel

theorem of_isDieLetter {c : Char} (h : isDieLetter c = true) :
    isBlank c = false ∧ isNoise c = false ∧ isDecimalDigit c = false ∧ c ∈ alphabet ∧
      lowerCase c = ['d'] := by
  simp only [isDieLetter, Bool.or_eq_true, decide_eq_true_eq] at h
  obtain rfl | rfl := h <;> decide +kernel

theorem keepSign_apart_dieLetter : Apart isKeepSign isDieLetter := by
  intro c hc
  simp only [isKeepSign, Bool.or_eq_true, decide_eq_true_eq] at hc
  obtain (rfl | rfl) | rfl := hc <;> rfl

theorem keepSign_apart_blank : Apart isKeepSign isBlank := fun _ hc => (of_isKeepSign hc).1

theorem dieLetter_apart_blank : Apart isDieLetter isBlank := fun _ hc => (of_isDieLetter hc).1

theorem dieLetter_apart_noise : Apart isDieLetter isNoise := fun _ hc => (of_isDieLetter hc).2.1

theorem of_isOpSign {c : Char} (h : isOpSign c = true) :
    isBlank c = false ∧ isNoise c = true ∧ isDecimalDigit c = false ∧ isDieLetter c = false ∧
      isKeepSign c = false := by
  simp only [isOpSign, Bool.or_eq_true, decide_eq_true_eq] at h
  obtain ((rfl | rfl) | rfl) | rfl := h <;> decide +kernel

theorem opSign_apart_blank : Apart isOpSign isBlank := fun _ hc => (of_isOpSign hc).1

theorem isOpSign_symbol (op : Op) : isOpSign op.symbol = true := by
  cases op <;> rfl

theorem isNoise_of_isDash {c : Char} (h : isDash c = true) : isNoise c = true := by
  simp only [isDash, Bool.or_eq_true, decide_eq_true_eq] at h
  obtain (rfl | rfl) | rfl := h <;> decide +kernel

theorem dash_apart_digit : Apart isDash isDecimalDigit :=
  fun c hc => noise_apart_digit c (isNoise_of_isDash hc)

end DiceTables.Line
