import DiceTables.Config
import DiceTables.Proofs.Computation
import Mathlib.Data.Option.Basic

/-!
Settings and the lookup they are read from. Whether there are settings is decided key by key: each key
has a value that can be read or none at all, dice have at least one die and two sides, and then every
setting is the value of its own key (`ofLookup_eq_ok_iff`). A failure names a key that has a value. The
value it reports is the one that the lookup has, letter by letter, except where a number that is too
small is spelled in an unusual way: such a number is checked after it has been read, and reported in
its plain spelling.
-/

namespace DiceTables.Config

variable {lookup lookup' : String → Option String} {key : String}

/-! ### Reading one key -/

section

variable {α : Type} {value? : List Char → Option α} {default : α}

theorem read_congr (h : lookup key = lookup' key) :
    read lookup key value? default = read lookup' key value? default := by
  rw [read, read, h]

theorem read_eq_ok_iff {x : α} : read lookup key value? default = .ok x ↔
    lookup key = none ∧ default = x ∨
      ∃ raw, lookup key = some raw ∧ value? (Text.trim raw.toList) = some x := by
  unfold read
  cases hraw : lookup key with
  | none => simp
  | some raw => cases hvalue : value? (Text.trim raw.toList) <;> simp [hvalue]

/-- Reading a key fails just if it has a value that cannot be read, and this value is reported. -/
theorem read_eq_error_iff {err : ConfigError} : read lookup key value? default = .error err ↔
    ∃ raw, lookup key = some raw ∧ value? (Text.trim raw.toList) = none ∧ err = .invalid key raw := by
  unfold read
  cases hraw : lookup key with
  | none => simp
  | some raw => cases hvalue : value? (Text.trim raw.toList) <;> simp [hvalue, eq_comm]

end

theorem le_of_number? {greatest n : Nat} {s : List Char} (h : number? greatest s = some n) :
    n ≤ greatest := by
  have hread : ∀ digits, numeralUpTo? greatest digits = some n → n ≤ greatest := by
    intro digits h
    obtain ⟨-, hle⟩ := Option.filter_eq_some_iff.mp h
    exact of_decide_eq_true hle
  unfold number? at h
  split at h <;> exact hread _ h

/-- What is read as a word of 16 bits keeps its value as a word. -/
theorem toNat_toUInt16_of_read {default n : Nat} (hdefault : default ≤ 65535)
    (h : read lookup key (number? 65535) default = .ok n) : n.toUInt16.toNat = n := by
  have hn : n ≤ 65535 := by
    rcases read_eq_ok_iff.mp h with ⟨-, rfl⟩ | ⟨raw, -, hraw⟩
    · exact hdefault
    · exact le_of_number? hraw
  exact UInt16.toNat_ofNat_of_lt' (Nat.lt_succ_of_le hn)

/-! ### Numbers that are too small -/

/-- The least number that a key may have. -/
def leastOf (key : String) : Nat :=
  if key = maxDiceKey then 1 else if key = maxSidesKey then 2 else 0

/-- The check of a number that has been read. -/
def checkLeast (key : String) (n : Nat) : Except ConfigError Unit :=
  if n < leastOf key then .error (.invalid key (toString n)) else .ok ()

theorem checkLeast_eq_ok {n : Nat} {u : Unit} : checkLeast key n = .ok u ↔ leastOf key ≤ n := by
  unfold checkLeast
  split <;> simp <;> omega

theorem checkLeast_eq_error {n : Nat} {err : ConfigError} :
    checkLeast key n = .error err ↔ n < leastOf key ∧ err = .invalid key (toString n) := by
  unfold checkLeast
  split <;> simp [*, eq_comm]

/-- The settings are read one key after the other, with the two checks before the last key. -/
theorem ofLookup_eq (lookup : String → Option String) : ofLookup lookup = (do
    let maxDice ← read lookup maxDiceKey (number? 65535) ({} : Limits).maxDice.toNat
    let maxSides ← read lookup maxSidesKey (number? 65535) ({} : Limits).maxSides.toNat
    let maxTerms ← read lookup maxTermsKey (number? 18446744073709551615) ({} : Limits).maxTerms
    let maxDepth ← read lookup maxDepthKey (number? 18446744073709551615) ({} : Limits).maxDepth
    let maxFanOut ← read lookup maxFanOutKey (number? 18446744073709551615) ({} : Limits).maxFanOut
    checkLeast maxDiceKey maxDice
    checkLeast maxSidesKey maxSides
    let showWorkLog ← read lookup showWorkKey bool? ({} : Config).showWorkLog
    return { limits := { maxDice := maxDice.toUInt16, maxSides := maxSides.toUInt16, maxTerms, maxDepth,
                         maxFanOut },
             signature := (lookup signatureKey).getD ({} : Config).signature, showWorkLog }) := by
  have hdice : leastOf maxDiceKey = 1 := by decide
  have hsides : leastOf maxSidesKey = 2 := by decide
  unfold ofLookup
  refine bind_congr fun maxDice => bind_congr fun maxSides => bind_congr fun maxTerms => ?_
  refine bind_congr fun maxDepth => bind_congr fun maxFanOut => ?_
  simp only [checkLeast, hdice, hsides, Nat.lt_one_iff]
  split
  · next hzero =>
    subst hzero
    rfl
  · split <;> rfl

/-! ### Settings that can be read -/

/-- The settings of a lookup: each is read from its own key, and dice can be rolled under them. -/
structure ReadsFrom (lookup : String → Option String) (c : Config) : Prop where
  maxDice : read lookup maxDiceKey (number? 65535) ({} : Limits).maxDice.toNat =
    .ok c.limits.maxDice.toNat
  maxSides : read lookup maxSidesKey (number? 65535) ({} : Limits).maxSides.toNat =
    .ok c.limits.maxSides.toNat
  maxTerms : read lookup maxTermsKey (number? 18446744073709551615) ({} : Limits).maxTerms =
    .ok c.limits.maxTerms
  maxDepth : read lookup maxDepthKey (number? 18446744073709551615) ({} : Limits).maxDepth =
    .ok c.limits.maxDepth
  maxFanOut : read lookup maxFanOutKey (number? 18446744073709551615) ({} : Limits).maxFanOut =
    .ok c.limits.maxFanOut
  one_le_maxDice : 1 ≤ c.limits.maxDice.toNat
  two_le_maxSides : 2 ≤ c.limits.maxSides.toNat
  signature : c.signature = (lookup signatureKey).getD ({} : Config).signature
  showWorkLog : read lookup showWorkKey bool? ({} : Config).showWorkLog = .ok c.showWorkLog

theorem ofLookup_eq_ok_iff {c : Config} : ofLookup lookup = .ok c ↔ ReadsFrom lookup c := by
  rw [ofLookup_eq]
  constructor
  · intro h
    obtain ⟨maxDice, hdice, h⟩ := bind_eq_ok.mp h
    obtain ⟨maxSides, hsides, h⟩ := bind_eq_ok.mp h
    obtain ⟨maxTerms, hterms, h⟩ := bind_eq_ok.mp h
    obtain ⟨maxDepth, hdepth, h⟩ := bind_eq_ok.mp h
    obtain ⟨maxFanOut, hfanOut, h⟩ := bind_eq_ok.mp h
    obtain ⟨⟨⟩, hleastDice, h⟩ := bind_eq_ok.mp h
    obtain ⟨⟨⟩, hleastSides, h⟩ := bind_eq_ok.mp h
    obtain ⟨showWorkLog, hshow, h⟩ := bind_eq_ok.mp h
    cases h
    have hdiceWord := toNat_toUInt16_of_read (by decide) hdice
    have hsidesWord := toNat_toUInt16_of_read (by decide) hsides
    exact {
      maxDice := hdiceWord.symm ▸ hdice
      maxSides := hsidesWord.symm ▸ hsides
      maxTerms := hterms
      maxDepth := hdepth
      maxFanOut := hfanOut
      one_le_maxDice := hdiceWord.symm ▸ checkLeast_eq_ok.mp hleastDice
      two_le_maxSides := hsidesWord.symm ▸ checkLeast_eq_ok.mp hleastSides
      signature := rfl
      showWorkLog := hshow }
  · intro h
    refine bind_eq_ok.mpr ⟨_, h.maxDice, bind_eq_ok.mpr ⟨_, h.maxSides, ?_⟩⟩
    refine bind_eq_ok.mpr ⟨_, h.maxTerms, bind_eq_ok.mpr ⟨_, h.maxDepth, ?_⟩⟩
    refine bind_eq_ok.mpr ⟨_, h.maxFanOut, ?_⟩
    refine bind_eq_ok.mpr ⟨(), checkLeast_eq_ok.mpr h.one_le_maxDice, ?_⟩
    refine bind_eq_ok.mpr ⟨(), checkLeast_eq_ok.mpr h.two_le_maxSides, ?_⟩
    refine bind_eq_ok.mpr ⟨_, h.showWorkLog, ?_⟩
    rw [← h.signature]
    simp [pure, Except.pure]

/-- Where two lookups have the same value for a key, the settings read from this key are the same. -/
structure AgreesByKey (lookup lookup' : String → Option String) (c c' : Config) : Prop where
  maxDice : lookup maxDiceKey = lookup' maxDiceKey → c.limits.maxDice = c'.limits.maxDice
  maxSides : lookup maxSidesKey = lookup' maxSidesKey → c.limits.maxSides = c'.limits.maxSides
  maxTerms : lookup maxTermsKey = lookup' maxTermsKey → c.limits.maxTerms = c'.limits.maxTerms
  maxDepth : lookup maxDepthKey = lookup' maxDepthKey → c.limits.maxDepth = c'.limits.maxDepth
  maxFanOut : lookup maxFanOutKey = lookup' maxFanOutKey → c.limits.maxFanOut = c'.limits.maxFanOut
  signature : lookup signatureKey = lookup' signatureKey → c.signature = c'.signature
  showWorkLog : lookup showWorkKey = lookup' showWorkKey → c.showWorkLog = c'.showWorkLog

theorem eq_of_read {α : Type} {value? : List Char → Option α} {default x x' : α}
    (h : read lookup key value? default = .ok x) (h' : read lookup' key value? default = .ok x')
    (hkey : lookup key = lookup' key) : x = x' := by
  rw [read_congr hkey, h'] at h
  exact (Except.ok.inj h).symm

theorem ReadsFrom.agreesByKey {c c' : Config} (h : ReadsFrom lookup c) (h' : ReadsFrom lookup' c') :
    AgreesByKey lookup lookup' c c' where
  maxDice hkey := UInt16.toNat_inj.mp (eq_of_read h.maxDice h'.maxDice hkey)
  maxSides hkey := UInt16.toNat_inj.mp (eq_of_read h.maxSides h'.maxSides hkey)
  maxTerms := eq_of_read h.maxTerms h'.maxTerms
  maxDepth := eq_of_read h.maxDepth h'.maxDepth
  maxFanOut := eq_of_read h.maxFanOut h'.maxFanOut
  signature hkey := by rw [h.signature, h'.signature, hkey]
  showWorkLog := eq_of_read h.showWorkLog h'.showWorkLog

/-! ### Reported values -/

/-- What a failure reports of the value of a key: a number that is too small in its plain spelling,
anything else as it is. -/
def reported (key raw : String) : String :=
  match (number? 65535 (Text.trim raw.toList)).filter (· < leastOf key) with
  | some n => toString n
  | none => raw

section

variable {key' raw value : String} {n : Nat}

theorem reported_of_lt (h : number? 65535 (Text.trim raw.toList) = some n) (hlt : n < leastOf key) :
    reported key raw = toString n := by
  have hsome : (number? 65535 (Text.trim raw.toList)).filter (· < leastOf key) = some n :=
    Option.filter_eq_some_iff.mpr ⟨h, decide_eq_true hlt⟩
  rw [reported, hsome]

theorem reported_of_forall
    (h : ∀ n, number? 65535 (Text.trim raw.toList) = some n → leastOf key ≤ n) :
    reported key raw = raw := by
  have hnone : (number? 65535 (Text.trim raw.toList)).filter (· < leastOf key) = none :=
    Option.filter_eq_none_iff.mpr fun n hn => by simpa using h n hn
  rw [reported, hnone]

/-- A value is reported as it is unless it is an unusual spelling of a number that is too small. -/
theorem reported_eq_iff : reported key raw = raw ↔
    ∀ n, number? 65535 (Text.trim raw.toList) = some n → n < leastOf key → raw = toString n := by
  constructor
  · intro h n hn hlt
    rw [← reported_of_lt hn hlt, h]
  · intro h
    by_cases hsmall : ∃ n, number? 65535 (Text.trim raw.toList) = some n ∧ n < leastOf key
    · obtain ⟨n, hn, hlt⟩ := hsmall
      rw [reported_of_lt hn hlt, ← h n hn hlt]
    · exact reported_of_forall fun n hn => Nat.not_lt.mp fun hlt => hsmall ⟨n, hn, hlt⟩

/-- A value that cannot be read is reported as it is. -/
theorem reported_of_read {α : Type} {value? : List Char → Option α} {default : α}
    (h : read lookup key value? default = .error (.invalid key' value))
    (hkey : ∀ s, value? s = none → leastOf key = 0 ∨ number? 65535 s = none) :
    ∃ raw, lookup key' = some raw ∧ value = reported key' raw := by
  obtain ⟨raw, hraw, hnone, herr⟩ := read_eq_error_iff.mp h
  obtain ⟨rfl, rfl⟩ := ConfigError.invalid.inj herr
  refine ⟨value, hraw, (reported_of_forall fun n hn => ?_).symm⟩
  rcases hkey _ hnone with hzero | hnumber
  · exact hzero ▸ Nat.zero_le n
  · rw [hnumber] at hn
    cases hn

/-- A number that is too small is reported in its plain spelling. -/
theorem reported_of_checkLeast {default : Nat} (hdefault : leastOf key ≤ default)
    (hread : read lookup key (number? 65535) default = .ok n)
    (h : checkLeast key n = .error (.invalid key' value)) :
    ∃ raw, lookup key' = some raw ∧ value = reported key' raw := by
  obtain ⟨hlt, herr⟩ := checkLeast_eq_error.mp h
  cases herr
  rcases read_eq_ok_iff.mp hread with ⟨-, rfl⟩ | ⟨raw, hraw, hn⟩
  · omega
  · exact ⟨raw, hraw, (reported_of_lt hn hlt).symm⟩

/-- Whatever step fails, its key has a value, and this value is the one that is reported. -/
theorem exists_of_ofLookup_eq_error (h : ofLookup lookup = .error (.invalid key value)) :
    ∃ raw, lookup key = some raw ∧ value = reported key raw := by
  have hword : ∀ key s, number? 65535 s = none → leastOf key = 0 ∨ number? 65535 s = none :=
    fun _ _ hnone => .inr hnone
  rw [ofLookup_eq] at h
  rcases bind_eq_error.mp h with h | ⟨maxDice, hdice, h⟩
  · exact reported_of_read h (hword _)
  rcases bind_eq_error.mp h with h | ⟨maxSides, hsides, h⟩
  · exact reported_of_read h (hword _)
  rcases bind_eq_error.mp h with h | ⟨maxTerms, -, h⟩
  · exact reported_of_read h fun _ _ => .inl (by decide)
  rcases bind_eq_error.mp h with h | ⟨maxDepth, -, h⟩
  · exact reported_of_read h fun _ _ => .inl (by decide)
  rcases bind_eq_error.mp h with h | ⟨maxFanOut, -, h⟩
  · exact reported_of_read h fun _ _ => .inl (by decide)
  rcases bind_eq_error.mp h with h | ⟨⟨⟩, -, h⟩
  · exact reported_of_checkLeast (by decide) hdice h
  rcases bind_eq_error.mp h with h | ⟨⟨⟩, -, h⟩
  · exact reported_of_checkLeast (by decide) hsides h
  rcases bind_eq_error.mp h with h | ⟨showWorkLog, -, h⟩
  · exact reported_of_read h fun _ _ => .inl (by decide)
  · cases h

end

/-- A failure names a key that has a value, and reports this value as it is, unless it is an unusual
spelling of a number that is too small for the key: then the plain spelling is reported. Settings
without a failure leave at least one die and two sides, and each of them depends on nothing but the
value of its own key. -/
theorem ofLookup_goes_by_key (lookup : String → Option String) :
    (∀ key value, ofLookup lookup = .error (.invalid key value) →
      ∃ raw, lookup key = some raw ∧ value = reported key raw ∧
        (lookup key = some value ↔
          ∀ n, number? 65535 (Text.trim raw.toList) = some n → n < leastOf key → raw = toString n)) ∧
    ∀ c, ofLookup lookup = .ok c → 1 ≤ c.limits.maxDice ∧ 2 ≤ c.limits.maxSides ∧
      ∀ lookup' c', ofLookup lookup' = .ok c' → AgreesByKey lookup lookup' c c' := by
  refine ⟨fun key value h => ?_, fun c h => ?_⟩
  · obtain ⟨raw, hraw, rfl⟩ := exists_of_ofLookup_eq_error h
    refine ⟨raw, hraw, rfl, ?_⟩
    rw [hraw, Option.some_inj, eq_comm, reported_eq_iff]
  · have hreads := ofLookup_eq_ok_iff.mp h
    refine ⟨UInt16.le_iff_toNat_le.mpr hreads.one_le_maxDice,
      UInt16.le_iff_toNat_le.mpr hreads.two_le_maxSides, fun lookup' c' h' => ?_⟩
    exact hreads.agreesByKey (ofLookup_eq_ok_iff.mp h')

/-- The lookup in which one key has a value. -/
def only (key raw : String) : String → Option String :=
  fun key' => if key' = key then some raw else none

/-- One side is refused in both spellings and reported as 1, which is the value of the key in the first
spelling only; showing the work log leaves the limits alone. -/
theorem one_side_refused :
    only maxSidesKey "1" maxSidesKey = some "1" ∧
      (∃ raw, only maxSidesKey " +1" maxSidesKey = some raw ∧ "1" = reported maxSidesKey raw) ∧
      AgreesByKey (only showWorkKey "true") (fun _ => none) { showWorkLog := true } {} := by
  have hplain : ofLookup (only maxSidesKey "1") = .error (.invalid maxSidesKey "1") := by decide
  have hplus : ofLookup (only maxSidesKey " +1") = .error (.invalid maxSidesKey "1") := by decide
  have hshow : ofLookup (only showWorkKey "true") = .ok { showWorkLog := true } := by decide
  refine ⟨?_, ?_, ?_⟩
  · obtain ⟨raw, hraw, -, hsame⟩ := (ofLookup_goes_by_key _).1 _ _ hplain
    obtain rfl : "1" = raw := Option.some_inj.mp hraw
    exact hsame.mpr (by decide)
  · obtain ⟨raw, hraw, hreported, -⟩ := (ofLookup_goes_by_key _).1 _ _ hplus
    exact ⟨raw, hraw, hreported⟩
  · exact ((ofLookup_goes_by_key _).2 _ hshow).2.2 (fun _ => none) {} (by decide)

/-- A number of dice that is spelled with two zeros is reported with one. -/
theorem two_zeros_reported_as_one :
    ofLookup (only maxDiceKey "00") = .error (.invalid maxDiceKey "0") ∧
      only maxDiceKey "00" maxDiceKey ≠ some "0" := by
  decide

end DiceTables.Config
