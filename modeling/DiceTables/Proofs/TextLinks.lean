import DiceTables.Link.Markdown
import DiceTables.Proofs.Lines

/-!
The links of a text. Two scanners go through the same text, one for links that are written out, one
for addresses by themselves, so what they find may overlap, and an address may be found many times.
What each of them finds is described without the scanner: there is one way only to go through a text
match by match (`successive_iff`), and a match is a text of a certain shape (`written_eq_some`,
`plain_eq_some`). Of the matches that count, the first with each address stays.
-/

namespace DiceTables

open Text Scanner

/-! ### Successive matches -/

namespace Text.Scanner

variable {α : Type}

/-- The successive matches of a text from a position on, where `Reads` says what can be read off the
front of a text and what is left then. -/
structure Successive (Reads : List Char → α → List Char → Prop) (s : List Char) (k : Nat)
    (found : List (Found α)) : Prop where
  /-- Each match is read where it starts, up to where it stops. -/
  read : ∀ f ∈ found, k ≤ f.start ∧ f.start < f.stop ∧ f.stop ≤ s.length ∧
    Reads (s.drop f.start) f.value (s.drop f.stop)
  /-- No match starts before the one ahead of it stops. -/
  apart : found.Pairwise fun f g => f.stop ≤ g.start
  /-- Wherever something can be read, there is a match. -/
  covers : ∀ i value rest, k ≤ i → Reads (s.drop i) value rest →
    ∃ f ∈ found, f.start ≤ i ∧ i < f.stop

/-- A scanner that finds what `Reads` says. -/
structure Finds (a : Scanner α) (Reads : List Char → α → List Char → Prop) : Prop where
  eq_some_iff : ∀ s value rest, a s = some (value, rest) ↔ Reads s value rest
  /-- Something is taken, so the scan goes on behind it. -/
  takes : ∀ s value rest, Reads s value rest → ∃ taken, taken ≠ [] ∧ s = taken ++ rest

variable {a : Scanner α} {Reads : List Char → α → List Char → Prop} {s : List Char} {k : Nat}

theorem Finds.not_nil (h : Finds a Reads) (value : α) (rest : List Char) : ¬ Reads [] value rest := by
  intro hread
  obtain ⟨taken, hne, htaken⟩ := h.takes [] value rest hread
  exact hne (List.append_eq_nil_iff.mp htaken.symm).1

theorem Finds.exists_drop (h : Finds a Reads) {value : α} {rest : List Char}
    (hsome : a s = some (value, rest)) :
    ∃ n, 0 < n ∧ n + rest.length = s.length ∧ rest = s.drop n := by
  obtain ⟨taken, hne, rfl⟩ := h.takes s value rest ((h.eq_some_iff ..).mp hsome)
  exact ⟨taken.length, List.length_pos_iff.mpr hne, List.length_append.symm, List.drop_left.symm⟩

/-- A position where nothing can be read makes no difference. -/
theorem Successive.before {found : List (Found α)} (h : Successive Reads s (k + 1) found)
    (hnone : ∀ value rest, ¬ Reads (s.drop k) value rest) : Successive Reads s k found where
  read f hf := by
    obtain ⟨hstart, hread⟩ := h.read f hf
    exact ⟨Nat.le_of_succ_le hstart, hread⟩
  apart := h.apart
  covers i value rest hi hread := by
    rcases Nat.eq_or_lt_of_le hi with rfl | hlt
    · exact absurd hread (hnone value rest)
    · exact h.covers i value rest hlt hread

/-- A match is followed by those from where it stops. -/
theorem Successive.cons {f : Found α} {found : List (Found α)} (hlt : f.start < f.stop)
    (hstop : f.stop ≤ s.length) (hread : Reads (s.drop f.start) f.value (s.drop f.stop))
    (h : Successive Reads s f.stop found) : Successive Reads s f.start (f :: found) where
  read := by
    refine List.forall_mem_cons.mpr ⟨⟨Nat.le_refl _, hlt, hstop, hread⟩, fun g hg => ?_⟩
    obtain ⟨hstart, hg⟩ := h.read g hg
    exact ⟨hlt.le.trans hstart, hg⟩
  apart := List.pairwise_cons.mpr ⟨fun g hg => (h.read g hg).1, h.apart⟩
  covers i value rest hi hi' := by
    by_cases hin : i < f.stop
    · exact ⟨f, List.mem_cons_self, hi, hin⟩
    · obtain ⟨g, hg, hover⟩ := h.covers i value rest (by omega) hi'
      exact ⟨g, List.mem_cons_of_mem f hg, hover⟩

/-- Going on from a position finds the successive matches from there. The induction is on the scan, so
the whole text stays fixed while what is left of it gets shorter. -/
theorem successive_findFrom (h : Finds a Reads) (whole : List Char) (passed : Nat) (s : List Char)
    (hs : s = whole.drop passed) : Successive Reads whole passed (findFrom a passed s) := by
  fun_induction findFrom a passed s with
  | case1 passed =>
    refine ⟨by simp, .nil, fun i value rest hi hread => absurd hread ?_⟩
    rw [← Nat.add_sub_cancel' hi, ← List.drop_drop, ← hs, List.drop_nil]
    exact h.not_nil value rest
  | case2 passed c tail hnone ih =>
    have htail : tail = whole.drop (passed + 1) := (congrArg List.tail hs).trans List.tail_drop
    refine (ih htail).before fun value rest hread => ?_
    rw [← hs, ← h.eq_some_iff, hnone] at hread
    cases hread
  | case3 passed c tail x rest hsome hshorter stop ih =>
    obtain ⟨n, hpos, hlength, hdrop⟩ := h.exists_drop hsome
    have hwhole : (c :: tail).length = whole.length - passed := hs ▸ List.length_drop
    rw [List.length_cons] at hlength hwhole
    have hstop : stop = passed + n := by omega
    have hrest : rest = whole.drop stop := by rw [hstop, ← List.drop_drop, ← hs, hdrop]
    refine .cons (f := ⟨passed, stop, x⟩) ?_ ?_ ?_ (ih hrest)
    · show passed < stop
      omega
    · show stop ≤ whole.length
      omega
    · show Reads (whole.drop passed) x (whole.drop stop)
      rw [← hs, ← hrest]
      exact (h.eq_some_iff ..).mp hsome
  | case4 passed c tail x rest hsome hlonger ih =>
    obtain ⟨n, hpos, hlength, -⟩ := h.exists_drop hsome
    rw [List.length_cons] at hlength
    omega

/-- Nothing can be read before the first match. -/
theorem Successive.head_le {f : Found α} {found : List (Found α)}
    (h : Successive Reads s k (f :: found)) {i : Nat} {value : α} {rest : List Char} (hi : k ≤ i)
    (hread : Reads (s.drop i) value rest) : f.start ≤ i := by
  obtain ⟨g, hg, hstart, -⟩ := h.covers i value rest hi hread
  rcases List.mem_cons.mp hg with rfl | hg
  · exact hstart
  · have hapart := (List.pairwise_cons.mp h.apart).1 g hg
    have hlt := (h.read f List.mem_cons_self).2.1
    omega

theorem Successive.tail {f : Found α} {found : List (Found α)}
    (h : Successive Reads s k (f :: found)) : Successive Reads s f.stop found where
  read g hg := by
    obtain ⟨-, hg'⟩ := h.read g (List.mem_cons_of_mem f hg)
    exact ⟨(List.pairwise_cons.mp h.apart).1 g hg, hg'⟩
  apart := (List.pairwise_cons.mp h.apart).2
  covers i value rest hi hread := by
    obtain ⟨hk, hlt, -⟩ := h.read f List.mem_cons_self
    obtain ⟨g, hg, hover⟩ := h.covers i value rest (by omega) hread
    rcases List.mem_cons.mp hg with rfl | hg
    · omega
    · exact ⟨g, hg, hover⟩

theorem Successive.pairwise_start {found : List (Found α)} (h : Successive Reads s k found) :
    found.Pairwise (·.start < ·.start) := by
  refine h.apart.imp_of_mem fun {f g} hf _ hapart => ?_
  exact (h.read f hf).2.1.trans_le hapart

/-- There is one way only to go through a text match by match. -/
theorem Successive.eq (h : Finds a Reads) {found found' : List (Found α)}
    (hfound : Successive Reads s k found) (hfound' : Successive Reads s k found') :
    found = found' := by
  induction found generalizing k found' with
  | nil =>
    cases found' with
    | nil => rfl
    | cons g found' =>
      obtain ⟨hk, -, -, hread⟩ := hfound'.read g List.mem_cons_self
      obtain ⟨f, hf, -⟩ := hfound.covers g.start _ _ hk hread
      exact absurd hf List.not_mem_nil
  | cons f found ih =>
    obtain ⟨hk, -, hle, hread⟩ := hfound.read f List.mem_cons_self
    cases found' with
    | nil =>
      obtain ⟨g, hg, -⟩ := hfound'.covers f.start _ _ hk hread
      exact absurd hg List.not_mem_nil
    | cons g found' =>
      obtain ⟨hk', -, hle', hread'⟩ := hfound'.read g List.mem_cons_self
      have hstart : f.start = g.start :=
        Nat.le_antisymm (hfound.head_le hk' hread') (hfound'.head_le hk hread)
      rw [← h.eq_some_iff, hstart] at hread
      rw [← h.eq_some_iff, hread] at hread'
      obtain ⟨hvalue, hrest⟩ := Prod.mk.inj (Option.some.inj hread')
      have hstop : f.stop = g.stop := by
        have hlength := congrArg List.length hrest
        simp only [List.length_drop] at hlength
        omega
      obtain rfl : f = g := by
        cases f
        cases g
        simp_all
      rw [ih hfound.tail hfound'.tail]

theorem successive_iff (h : Finds a Reads) (s : List Char) (found : List (Found α)) :
    Successive Reads s 0 found ↔ found = findAll a s := by
  have hall : Successive Reads s 0 (findAll a s) := successive_findFrom h s 0 s rfl
  constructor
  · exact fun hfound => hfound.eq h hall
  · rintro rfl
    exact hall

end Text.Scanner

namespace Link

/-! ### Addresses -/

/-- How addresses start. -/
def IsScheme (front : List Char) : Prop := front = "http://".toList ∨ front = "https://".toList

/-- An address: after its start it goes on with characters of a class, at least one. -/
def AddressOf (p : Char → Bool) (href : List Char) : Prop :=
  ∃ front tail, href = front ++ tail ∧ IsScheme front ∧ tail ≠ [] ∧ ∀ c ∈ tail, p c = true

/-- A character of the address of a link that is written out. -/
def isTarget (c : Char) : Bool := c ≠ ')' && !isBlank c

theorem textScheme_eq_some {front rest s : List Char} :
    textScheme s = some (front, rest) ↔ IsScheme front ∧ s = front ++ rest := by
  constructor
  · intro h
    obtain ⟨http, between, others, hhttp, hothers, rfl⟩ := sequence_cons_eq_some.mp h
    obtain ⟨letter, between', separator, hletter, hseparator, rfl⟩ :=
      sequence_pair_eq_some.mp hothers
    obtain ⟨rfl, rfl⟩ := literal_eq_some.mp hhttp
    obtain ⟨rfl, rfl⟩ := literal_eq_some.mp hseparator
    rcases optional_eq_some hletter with hs | ⟨-, rfl, rfl⟩
    · obtain ⟨c, hc, rfl, rfl⟩ := one_eq_some.mp hs
      obtain rfl : c = 's' := of_decide_eq_true hc
      exact ⟨.inr rfl, rfl⟩
    · exact ⟨.inl rfl, rfl⟩
  · rintro ⟨rfl | rfl, rfl⟩
    · rfl
    · rfl

theorem address_eq_some {p : Char → Bool} {href rest s : List Char} :
    sequence [textScheme, run1 p] s = some (href, rest) ↔
      AddressOf p href ∧ s = href ++ rest ∧ Stops p rest := by
  rw [sequence_pair_eq_some]
  constructor
  · rintro ⟨front, between, tail, hfront, htail, rfl⟩
    obtain ⟨hscheme, rfl⟩ := textScheme_eq_some.mp hfront
    obtain ⟨hne, rfl, hp, hstops⟩ := run1_eq_some.mp htail
    exact ⟨⟨front, tail, rfl, hscheme, hne, hp⟩, (List.append_assoc ..).symm, hstops⟩
  · rintro ⟨⟨front, tail, rfl, hscheme, hne, hp⟩, rfl, hstops⟩
    exact ⟨front, tail ++ rest, tail, textScheme_eq_some.mpr ⟨hscheme, List.append_assoc ..⟩,
      run1_eq_some.mpr ⟨hne, rfl, hp, hstops⟩, rfl⟩

theorem AddressOf.stops {p q : Char → Bool} {href : List Char} (h : AddressOf p href)
    (hq : q 'h' = false) (rest : List Char) : Stops q (href ++ rest) := by
  obtain ⟨front, tail, rfl, rfl | rfl, -⟩ := h
  · exact .cons hq _
  · exact .cons hq _

theorem AddressOf.ne_nil {p : Char → Bool} {href : List Char} (h : AddressOf p href) : href ≠ [] := by
  obtain ⟨front, tail, rfl, -, hne, -⟩ := h
  exact List.append_ne_nil_of_right_ne_nil front hne

/-! ### What is read as a link -/

/-- A link that is written out at the front of a text. -/
def IsWritten (s : List Char) (l : Link) (rest : List Char) : Prop :=
  ∃ label lead href trail,
    s = '[' :: (label ++ ("](".toList ++ (lead ++ (href ++ (trail ++ ')' :: rest))))) ∧
    ']' ∉ label ∧ (∀ c ∈ lead, isBlank c = true) ∧ AddressOf isTarget href ∧
    (∀ c ∈ trail, isBlank c = true) ∧
    l = ⟨if label.all isBlank then none else some (String.ofList (trim label)), String.ofList href⟩

/-- An address by itself at the front of a text, as long as it can be; the marks that may end a
sentence do not belong to it. -/
def IsPlain (s : List Char) (l : Link) (rest : List Char) : Prop :=
  ∃ href, s = href ++ rest ∧ AddressOf isAddress href ∧ Stops isAddress rest ∧
    l = ⟨none, String.ofList (trimEndWhile isSentenceMark href)⟩

theorem titled_eq (label href : List Char) : titled label href =
    ⟨if label.all isBlank then none else some (String.ofList (trim label)), String.ofList href⟩ := by
  have hblank : (trim label).isEmpty = label.all isBlank := by
    rw [Bool.eq_iff_iff, List.isEmpty_iff, List.all_eq_true]
    exact trimWhile_eq_nil_iff
  rw [titled, hblank]

theorem opening_eq_some {s taken rest : List Char} :
    sequence [literal "](".toList, run isBlank] s = some (taken, rest) ↔ ∃ lead,
      taken = "](".toList ++ lead ∧ s = "](".toList ++ (lead ++ rest) ∧
      (∀ c ∈ lead, isBlank c = true) ∧ Stops isBlank rest := by
  rw [sequence_pair_eq_some]
  constructor
  · rintro ⟨first, between, lead, hfirst, hlead, rfl⟩
    obtain ⟨rfl, rfl⟩ := literal_eq_some.mp hfirst
    obtain ⟨rfl, hblank, hstops⟩ := run_eq_some.mp hlead
    exact ⟨lead, rfl, rfl, hblank, hstops⟩
  · rintro ⟨lead, rfl, rfl, hblank, hstops⟩
    exact ⟨_, lead ++ rest, lead, literal_append .., run_eq_some.mpr ⟨rfl, hblank, hstops⟩, rfl⟩

theorem closing_eq_some {s taken rest : List Char} :
    sequence [run isBlank, one (· = ')')] s = some (taken, rest) ↔ ∃ trail,
      taken = trail ++ [')'] ∧ s = trail ++ ')' :: rest ∧ ∀ c ∈ trail, isBlank c = true := by
  rw [sequence_pair_eq_some]
  constructor
  · rintro ⟨trail, between, last, htrail, hlast, rfl⟩
    obtain ⟨rfl, hblank, -⟩ := run_eq_some.mp htrail
    obtain ⟨c, hc, rfl, rfl⟩ := one_eq_some.mp hlast
    obtain rfl : c = ')' := of_decide_eq_true hc
    exact ⟨trail, rfl, rfl, hblank⟩
  · rintro ⟨trail, rfl, rfl, hblank⟩
    have hstops : Stops isBlank (')' :: rest) := .cons (by decide +kernel) rest
    exact ⟨trail, _, _, run_eq_some.mpr ⟨rfl, hblank, hstops⟩,
      one_eq_some.mpr ⟨')', rfl, rfl, rfl⟩, rfl⟩

theorem stops_closing {trail : List Char} (h : ∀ c ∈ trail, isBlank c = true) (rest : List Char) :
    Stops isTarget (trail ++ ')' :: rest) := by
  cases trail with
  | nil => exact .cons (by decide) rest
  | cons c trail => exact .cons (by simp [isTarget, h c List.mem_cons_self]) _

/-- The scanner takes as much as it can at each step, which is no restriction: what comes next never
begins with a character that the step before could take. -/
theorem written_eq_some {s rest : List Char} {l : Link} :
    written s = some (l, rest) ↔ IsWritten s l rest := by
  constructor
  · intro h
    obtain ⟨⟨_, s₁⟩, hopen, h⟩ := Option.bind_eq_some_iff.mp h
    obtain ⟨⟨label, s₂⟩, hlabel, h⟩ := Option.bind_eq_some_iff.mp h
    obtain ⟨⟨_, s₃⟩, hopening, h⟩ := Option.bind_eq_some_iff.mp h
    obtain ⟨⟨href, s₄⟩, hhref, h⟩ := Option.bind_eq_some_iff.mp h
    obtain ⟨⟨_, s₅⟩, hclosing, h⟩ := Option.bind_eq_some_iff.mp h
    cases h
    obtain ⟨c, hc, -, rfl⟩ := one_eq_some.mp hopen
    obtain rfl : c = '[' := of_decide_eq_true hc
    obtain ⟨rfl, hletters, -⟩ := run_eq_some.mp hlabel
    obtain ⟨lead, -, rfl, hlead, -⟩ := opening_eq_some.mp hopening
    obtain ⟨haddress, rfl, -⟩ := address_eq_some.mp hhref
    obtain ⟨trail, -, rfl, htrail⟩ := closing_eq_some.mp hclosing
    have hnot : ']' ∉ label := fun hmem => by simpa using hletters _ hmem
    exact ⟨label, lead, href, trail, rfl, hnot, hlead, haddress, htrail, titled_eq ..⟩
  · rintro ⟨label, lead, href, trail, rfl, hnot, hlead, haddress, htrail, rfl⟩
    have hletters : ∀ c ∈ label, decide (c ≠ ']') = true := fun c hc =>
      decide_eq_true fun heq => hnot (heq ▸ hc)
    have hbracket : Stops (fun c => decide (c ≠ ']'))
        ("](".toList ++ (lead ++ (href ++ (trail ++ ')' :: rest)))) := .cons (by decide) _
    have hopen : ∀ s : List Char, one (· = '[') ('[' :: s) = some (['['], s) := fun _ => rfl
    have hlabel := run_eq_some.mpr ⟨rfl, hletters, hbracket⟩
    have hopening := opening_eq_some.mpr
      ⟨lead, rfl, rfl, hlead, haddress.stops (by decide +kernel) (trail ++ ')' :: rest)⟩
    have hhref : sequence [textScheme, run1 fun c => c ≠ ')' && !isBlank c]
        (href ++ (trail ++ ')' :: rest)) = some (href, trail ++ ')' :: rest) :=
      address_eq_some.mpr ⟨haddress, rfl, stops_closing htrail rest⟩
    have hclosing : sequence [run isBlank, one (· = ')')] (trail ++ ')' :: rest) = _ :=
      closing_eq_some.mpr ⟨trail, rfl, rfl, htrail⟩
    simp only [written, hopen, hlabel, hopening, hhref, hclosing, Option.bind_eq_bind,
      Option.bind_some, Option.pure_def, titled_eq]

theorem plain_eq_some {s rest : List Char} {l : Link} :
    plain s = some (l, rest) ↔ IsPlain s l rest := by
  constructor
  · intro h
    obtain ⟨⟨href, rest'⟩, hread, h⟩ := Option.bind_eq_some_iff.mp h
    cases h
    obtain ⟨haddress, rfl, hstops⟩ := address_eq_some.mp hread
    exact ⟨href, rfl, haddress, hstops, rfl⟩
  · rintro ⟨href, rfl, haddress, hstops, rfl⟩
    exact Option.bind_eq_some_iff.mpr ⟨_, address_eq_some.mpr ⟨haddress, rfl, hstops⟩, rfl⟩

theorem finds_written : Finds written IsWritten where
  eq_some_iff _ _ _ := written_eq_some
  takes := by
    rintro s l rest ⟨label, lead, href, trail, rfl, -⟩
    exact ⟨'[' :: (label ++ ("](".toList ++ (lead ++ (href ++ (trail ++ [')']))))), by simp, by simp⟩

theorem finds_plain : Finds plain IsPlain where
  eq_some_iff _ _ _ := plain_eq_some
  takes := by
    rintro s l rest ⟨href, rfl, haddress, -⟩
    exact ⟨href, haddress.ne_nil, rfl⟩

/-! ### Addresses of what is read -/

theorem IsScheme.exists_slash {front : List Char} (h : IsScheme front) :
    ∃ before, front = before ++ ['/'] := by
  rcases h with rfl | rfl
  · exact ⟨"http:/".toList, rfl⟩
  · exact ⟨"https:/".toList, rfl⟩

/-- A link that leads to an address of a text. -/
structure LeadsTo (s : List Char) (l : Link) : Prop where
  /-- The address starts as addresses do. -/
  scheme : ∃ front, IsScheme front ∧ front <+: l.href.toList
  /-- The address is a piece of the text. -/
  occurs : l.href.toList <:+: s

theorem IsWritten.leadsTo {s rest : List Char} {l : Link} (h : IsWritten s l rest) :
    LeadsTo s l := by
  obtain ⟨label, lead, href, trail, rfl, -, -, ⟨front, tail, rfl, hscheme, -⟩, -, rfl⟩ := h
  refine ⟨⟨front, hscheme, ?_⟩, ?_⟩
  · rw [String.toList_ofList]
    exact List.prefix_append front tail
  · rw [String.toList_ofList]
    exact ⟨'[' :: (label ++ ("](".toList ++ lead)), trail ++ ')' :: rest, by simp⟩

theorem IsPlain.leadsTo {s rest : List Char} {l : Link} (h : IsPlain s l rest) : LeadsTo s l := by
  obtain ⟨href, rfl, ⟨front, tail, rfl, hscheme, -⟩, -, rfl⟩ := h
  refine ⟨⟨front, hscheme, ?_⟩, ?_⟩
  · obtain ⟨before, rfl⟩ := hscheme.exists_slash
    rw [String.toList_ofList, List.append_assoc]
    exact prefix_trimEndWhile (by decide) before tail
  · obtain ⟨dropped, heq, -⟩ := exists_trimEndWhile_append isSentenceMark (front ++ tail)
    have hkept : trimEndWhile isSentenceMark (front ++ tail) <+: front ++ tail :=
      ⟨dropped, heq.symm⟩
    rw [String.toList_ofList]
    exact (hkept.trans (List.prefix_append _ rest)).isInfix

theorem LeadsTo.of_drop {s : List Char} {l : Link} {n : Nat} (h : LeadsTo (s.drop n) l) :
    LeadsTo s l where
  scheme := h.scheme
  occurs := h.occurs.trans (List.drop_suffix n s).isInfix

/-! ### Addresses that came before -/

/-- What stays of the matches in a text when no address may come twice. -/
structure Firsts (found firsts : List (Found Link)) : Prop where
  /-- The order stays. -/
  sublist : firsts.Sublist found
  /-- No address comes twice. -/
  nodup : (firsts.map (·.value.href)).Nodup
  /-- The first match with an address is the one that stays. -/
  first : ∀ f ∈ firsts, ∀ g ∈ found, g.value.href = f.value.href → f.start ≤ g.start
  /-- No address is lost. -/
  complete : ∀ g ∈ found, ∃ f ∈ firsts, f.value.href = g.value.href

theorem distinct_cons (l : Link) (links : List Link) :
    distinct (l :: links) = l :: distinct (links.filter fun l' => l'.href ≠ l.href) := by
  rw [distinct, List.eraseDupsBy_cons]
  simp [distinct]

theorem Firsts.cons {f : Found Link} {found firsts : List (Found Link)}
    (h : Firsts (found.filter fun g => g.value.href ≠ f.value.href) firsts)
    (hf : ∀ g ∈ found, f.start < g.start) : Firsts (f :: found) (f :: firsts) where
  sublist := (h.sublist.trans List.filter_sublist).cons_cons f
  nodup := by
    refine List.nodup_cons.mpr ⟨fun hmem => ?_, h.nodup⟩
    obtain ⟨g, hg, hhref⟩ := List.mem_map.mp hmem
    have hother := (List.mem_filter.mp (h.sublist.subset hg)).2
    exact of_decide_eq_true hother hhref
  first := by
    refine List.forall_mem_cons.mpr ⟨List.forall_mem_cons.mpr ⟨fun _ => Nat.le_refl _, ?_⟩, ?_⟩
    · exact fun g hg _ => (hf g hg).le
    · intro g hg
      have hother := of_decide_eq_true (List.mem_filter.mp (h.sublist.subset hg)).2
      refine List.forall_mem_cons.mpr ⟨fun hhref => absurd hhref.symm hother, fun g' hg' hhref => ?_⟩
      exact h.first g hg g' (List.mem_filter.mpr ⟨hg', decide_eq_true (hhref ▸ hother)⟩) hhref
  complete := by
    refine List.forall_mem_cons.mpr ⟨⟨f, List.mem_cons_self, rfl⟩, fun g hg => ?_⟩
    by_cases hhref : g.value.href = f.value.href
    · exact ⟨f, List.mem_cons_self, hhref.symm⟩
    · obtain ⟨f', hf', hsame⟩ :=
        h.complete g (List.mem_filter.mpr ⟨hg, decide_eq_true hhref⟩)
      exact ⟨f', List.mem_cons_of_mem f hf', hsame⟩

theorem exists_firsts : ∀ found : List (Found Link), found.Pairwise (·.start < ·.start) →
    ∃ firsts, firsts.map (·.value) = distinct (found.map (·.value)) ∧ Firsts found firsts
  | [], _ => ⟨[], rfl, .slnil, .nil, by simp, by simp⟩
  | f :: found, h => by
    obtain ⟨hf, hfound⟩ := List.pairwise_cons.mp h
    obtain ⟨firsts, heq, hfirsts⟩ :=
      exists_firsts (found.filter fun g => g.value.href ≠ f.value.href) (hfound.filter _)
    refine ⟨f :: firsts, ?_, hfirsts.cons hf⟩
    rw [List.map_cons, List.map_cons, distinct_cons, heq, List.filter_map]
    rfl
termination_by found => found.length
decreasing_by
  exact Nat.lt_succ_of_le (List.length_filter_le ..)

/-! ### Links in order -/

/-- The matches that count as links of a text: all that are written out, and each address by itself
that starts outside of them. -/
def Counts (out alone : List (Found Link)) (f : Found Link) : Prop :=
  f ∈ out ∨ f ∈ alone ∧ ∀ w ∈ out, ¬ (w.start ≤ f.start ∧ f.start < w.stop)

/-- The links of a text, by the matches that count. -/
structure Collects (s : List Char) (IsLink : Found Link → Prop) (links : List Link) : Prop where
  /-- No address comes twice. -/
  nodup : (links.map (·.href)).Nodup
  /-- Each link leads to an address of the text. -/
  leadsTo : ∀ l ∈ links, LeadsTo s l
  /-- Each link is the first match with its address, and they are in the order of these matches. -/
  firsts : ∃ firsts : List (Found Link), firsts.map (·.value) = links ∧
    firsts.Pairwise (·.start < ·.start) ∧
    ∀ f ∈ firsts, IsLink f ∧ ∀ g, IsLink g → g.value.href = f.value.href → f.start ≤ g.start
  /-- The addresses are those of all matches. -/
  complete : ∀ href, (∃ l ∈ links, l.href = href) ↔ ∃ f, IsLink f ∧ f.value.href = href

theorem mem_foundIn {s : List Char} {f : Found Link} :
    f ∈ foundIn s ↔ Counts (findAll written s) (findAll plain s) f := by
  simp [foundIn, Counts]

/-- No two links of a text start at the same place. -/
theorem pairwise_start_foundIn (s : List Char) :
    (foundIn s).Pairwise fun f g => f.start ≠ g.start := by
  have hout := (successive_iff finds_written s _).mpr rfl
  have halone := (successive_iff finds_plain s _).mpr rfl
  refine List.pairwise_append.mpr ⟨hout.pairwise_start.imp Nat.ne_of_lt,
    (halone.pairwise_start.imp Nat.ne_of_lt).filter _, fun w hw f hf heq => ?_⟩
  have hlt := (hout.read w hw).2.1
  have houtside := (List.mem_filter.mp hf).2
  simp only [Bool.not_eq_true', List.any_eq_false, Bool.and_eq_true, decide_eq_true_eq] at houtside
  exact houtside w hw ⟨heq.le, heq ▸ hlt⟩

theorem pairwise_start_sorted (s : List Char) :
    ((foundIn s).mergeSort fun f g => decide (f.start ≤ g.start)).Pairwise
      (·.start < ·.start) := by
  have hle : ((foundIn s).mergeSort fun f g => decide (f.start ≤ g.start)).Pairwise
      fun f g => decide (f.start ≤ g.start) = true :=
    List.pairwise_mergeSort (fun f g h => by simpa using Nat.le_trans)
      (fun f g => by simpa using Nat.le_total ..) (foundIn s)
  have hne := (List.mergeSort_perm (foundIn s) fun f g => decide (f.start ≤ g.start)).pairwise_iff
    (fun {f g} hfg => hfg.symm) |>.mpr (pairwise_start_foundIn s)
  refine (hle.and hne).imp fun {f g} ⟨hfg, hne⟩ => ?_
  exact Nat.lt_of_le_of_ne (of_decide_eq_true hfg) hne

theorem leadsTo_of_counts {s : List Char} {f : Found Link}
    (h : Counts (findAll written s) (findAll plain s) f) : LeadsTo s f.value := by
  rcases h with hout | ⟨halone, -⟩
  · have hread := ((successive_iff finds_written s _).mpr rfl).read f hout
    exact hread.2.2.2.leadsTo.of_drop
  · have hread := ((successive_iff finds_plain s _).mpr rfl).read f halone
    exact hread.2.2.2.leadsTo.of_drop

/-- Of the links that are written out in a text, and the addresses by themselves outside of those, each
address is listed once, with the text of the link that has it first, in the order of these firsts; and no
other link is listed. The matches of either kind are those that one finds going through the text. -/
theorem inText_collects (s : List Char) : ∃ out alone,
    (∀ found, Successive IsWritten s 0 found ↔ found = out) ∧
    (∀ found, Successive IsPlain s 0 found ↔ found = alone) ∧
    Collects s (Counts out alone) (inText s) := by
  refine ⟨findAll written s, findAll plain s, successive_iff finds_written s,
    successive_iff finds_plain s, ?_⟩
  have hmem : ∀ f : Found Link, f ∈ (foundIn s).mergeSort (fun f g => decide (f.start ≤ g.start)) ↔
      Counts (findAll written s) (findAll plain s) f := fun f =>
    List.mem_mergeSort.trans mem_foundIn
  have hsorted := pairwise_start_sorted s
  obtain ⟨firsts, heq, hfirsts⟩ := exists_firsts _ hsorted
  have hlinks : firsts.map (·.value) = inText s := heq
  have hcounts : ∀ f ∈ firsts, Counts (findAll written s) (findAll plain s) f := fun f hf =>
    (hmem f).mp (hfirsts.sublist.subset hf)
  constructor
  case nodup =>
    rw [← hlinks, List.map_map]
    exact hfirsts.nodup
  case leadsTo =>
    rw [← hlinks]
    exact List.forall_mem_map.mpr fun f hf => leadsTo_of_counts (hcounts f hf)
  case firsts =>
    refine ⟨firsts, hlinks, hsorted.sublist hfirsts.sublist, fun f hf => ⟨hcounts f hf, ?_⟩⟩
    exact fun g hg hhref => hfirsts.first f hf g ((hmem g).mpr hg) hhref
  case complete =>
    intro href
    rw [← hlinks]
    constructor
    · rintro ⟨l, hl, rfl⟩
      obtain ⟨f, hf, rfl⟩ := List.mem_map.mp hl
      exact ⟨f, hcounts f hf, rfl⟩
    · rintro ⟨g, hg, rfl⟩
      obtain ⟨f, hf, hhref⟩ := hfirsts.complete g ((hmem g).mpr hg)
      exact ⟨f.value, List.mem_map_of_mem hf, hhref⟩

example : inText "[see http://a.net]( https://b.net ).".toList =
    [⟨some "see http://a.net", "https://b.net"⟩] := by decide +kernel

end Link

end DiceTables
