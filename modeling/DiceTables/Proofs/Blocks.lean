import DiceTables.Proofs.Locating
import Mathlib.Data.List.Pairwise

/-!
Where the blocks of a text lie among its lines. Every header opens a block, and a block is a stretch
of lines that keeps clear of all others: it holds no second header, and it goes as far as the last
outcome before the next header. So every outcome after the first header lies in exactly one block,
and what lies between two blocks is no outcome.
-/

namespace DiceTables

open Text

/-- What the blocks among some lines are. -/
structure Locates (ls : List (List Char)) (blocks : List Block) : Prop where
  /-- There is one block for each header, in the order of the headers. -/
  starts : blocks.map Block.start = (ls.zipIdx.filter fun p => Line.isHeader p.1).map Prod.snd
  /-- A block ends before the next one begins. -/
  apart : blocks.Pairwise fun a b => a.stop ≤ b.start
  /-- A block is the lines of its range. -/
  lines : ∀ b ∈ blocks, (ls.take b.stop).drop b.start = b.header :: b.body
  /-- There is no header in the body of a block. -/
  plain : ∀ b ∈ blocks, ∀ line ∈ b.body, Line.isHeader line = false
  /-- A body that has lines ends with an outcome. -/
  ends : ∀ b ∈ blocks, ∀ line ∈ b.body.getLast?, Line.isOutcome line = true
  /-- An outcome after a header is in the body of exactly one block, unless it is a header itself. -/
  covers : ∀ i line, ls[i]? = some line → Line.isOutcome line = true →
    Line.isHeader line = false → (∃ j < i, ∃ header ∈ ls[j]?, Line.isHeader header = true) →
    ∃! b, b ∈ blocks ∧ b.start < i ∧ i < b.stop
  /-- There is no outcome between the end of a block and the start of the next one. -/
  between : ∀ a b, [a, b] <:+: blocks → ∀ i line, ls[i]? = some line → a.stop ≤ i → i < b.start →
    Line.isOutcome line = false

namespace Block

/-! ### The last outcome -/

theorem upToLastOutcome_isPrefix (ls : List (List Char)) : upToLastOutcome ls <+: ls := by
  obtain ⟨more, heq, -⟩ := exists_upToLastOutcome_append ls
  exact ⟨more, heq.symm⟩

theorem isOutcome_getLast?_upToLastOutcome {ls : List (List Char)} {line : List Char}
    (h : line ∈ (upToLastOutcome ls).getLast?) : Line.isOutcome line = true := by
  rw [upToLastOutcome, List.getLast?_reverse] at h
  have hhead := List.head?_dropWhile_not (!Line.isOutcome ·) ls.reverse
  rw [Option.mem_def.mp h] at hhead
  simpa using hhead

/-- No outcome is lost with the lines after the last one. -/
theorem lt_length_upToLastOutcome {ls : List (List Char)} {i : Nat} {line : List Char}
    (hline : ls[i]? = some line) (houtcome : Line.isOutcome line = true) :
    i < (upToLastOutcome ls).length := by
  obtain ⟨more, heq, hmore⟩ := exists_upToLastOutcome_append ls
  by_contra hge
  rw [heq, List.getElem?_append_right (not_lt.mp hge)] at hline
  rw [hmore line (List.mem_of_getElem? hline)] at houtcome
  cases houtcome

/-! ### Each block -/

/-- The block that a header opens, given the lines after the header. -/
def opened (start : Nat) (header : List Char) (rest : List (List Char)) : Block where
  header := header
  body := upToLastOutcome (rest.takeWhile (!Line.isHeader ·))
  start := start

theorem locateFrom_cons (passed : Nat) (line : List Char) (rest : List (List Char)) :
    locateFrom passed (line :: rest) =
      if Line.isHeader line then opened passed line rest :: locateFrom (passed + 1) rest
      else locateFrom (passed + 1) rest := rfl

/-- Every block is one that a header opens. -/
theorem exists_of_mem_locateFrom {b : Block} : ∀ {ls : List (List Char)} {passed : Nat},
    b ∈ locateFrom passed ls → ∃ pre header rest, ls = pre ++ header :: rest ∧
      Line.isHeader header = true ∧ b = opened (passed + pre.length) header rest
  | [], _, h => by cases h
  | line :: ls, passed, h => by
    have hlater : b ∈ locateFrom (passed + 1) ls → ∃ pre header rest,
        line :: ls = pre ++ header :: rest ∧ Line.isHeader header = true ∧
        b = opened (passed + pre.length) header rest := by
      intro h
      obtain ⟨pre, header, rest, rfl, hheader, rfl⟩ := exists_of_mem_locateFrom h
      refine ⟨line :: pre, header, rest, rfl, hheader, ?_⟩
      rw [List.length_cons, Nat.add_right_comm, Nat.add_assoc]
    rw [locateFrom_cons] at h
    split_ifs at h with hheader
    · rcases List.mem_cons.mp h with rfl | h
      · exact ⟨[], line, ls, rfl, hheader, rfl⟩
      · exact hlater h
    · exact hlater h

theorem opened_body_isPrefix (start : Nat) (header : List Char) (rest : List (List Char)) :
    (opened start header rest).body <+: rest :=
  (upToLastOutcome_isPrefix _).trans (List.takeWhile_prefix _)

theorem isHeader_of_mem_opened {start : Nat} {header line : List Char} {rest : List (List Char)}
    (h : line ∈ (opened start header rest).body) : Line.isHeader line = false := by
  simpa using List.mem_takeWhile_imp ((upToLastOutcome_isPrefix _).subset h)

theorem lines_opened (pre : List (List Char)) (header : List Char) (rest : List (List Char)) :
    ((pre ++ header :: rest).take (opened pre.length header rest).stop).drop pre.length =
      header :: (opened pre.length header rest).body := by
  obtain ⟨more, hrest⟩ := opened_body_isPrefix pre.length header rest
  have hsplit : pre ++ header :: rest =
      (pre ++ header :: (opened pre.length header rest).body) ++ more := by
    rw [List.append_assoc, List.cons_append, hrest]
  have hstop : (opened pre.length header rest).stop =
      (pre ++ header :: (opened pre.length header rest).body).length := by
    rw [stop, List.length_append, List.length_cons, Nat.add_right_comm]
    rfl
  rw [hsplit, hstop, List.take_left, List.drop_left]

/-! ### All blocks -/

theorem starts_locateFrom : ∀ (passed : Nat) (ls : List (List Char)),
    (locateFrom passed ls).map start =
      ((ls.zipIdx passed).filter fun p => Line.isHeader p.1).map Prod.snd
  | _, [] => rfl
  | passed, line :: ls => by
    have ih := starts_locateFrom (passed + 1) ls
    rw [locateFrom_cons, List.zipIdx_cons, List.filter_cons]
    split_ifs with hheader
    · rw [List.map_cons, List.map_cons, ih]
      rfl
    · exact ih

/-- A block ends before any header after its own. -/
theorem stop_opened_le {start : Nat} {header header' : List Char} {pre rest : List (List Char)}
    (hheader : Line.isHeader header' = true) :
    (opened start header (pre ++ header' :: rest)).stop ≤ start + 1 + pre.length := by
  have hbody := (upToLastOutcome_isPrefix
    ((pre ++ header' :: rest).takeWhile (!Line.isHeader ·))).length_le
  have hplain : ((pre ++ header' :: rest).takeWhile (!Line.isHeader ·)).length ≤ pre.length := by
    rw [List.takeWhile_append, List.takeWhile_cons_of_neg (by simp [hheader]), List.append_nil]
    split_ifs
    · exact le_rfl
    · exact (List.takeWhile_prefix _).length_le
  exact Nat.add_le_add_left (hbody.trans hplain) _

theorem apart_locateFrom : ∀ (passed : Nat) (ls : List (List Char)),
    (locateFrom passed ls).Pairwise fun a b => a.stop ≤ b.start
  | _, [] => .nil
  | passed, line :: ls => by
    have ih := apart_locateFrom (passed + 1) ls
    rw [locateFrom_cons]
    split_ifs with hheader
    · refine .cons (fun b hb => ?_) ih
      obtain ⟨pre, header, rest, rfl, hheader', rfl⟩ := exists_of_mem_locateFrom hb
      exact stop_opened_le hheader'
    · exact ih

theorem lt_stop_opened (start : Nat) (header : List Char) {line : List Char}
    {rest : List (List Char)} {i : Nat} (hline : rest[i]? = some line)
    (houtcome : Line.isOutcome line = true)
    (hplain : ∀ j ≤ i, ∀ x ∈ rest[j]?, Line.isHeader x = false) :
    start + 1 + i < (opened start header rest).stop := by
  have hfront : ∀ x ∈ rest.take (i + 1), (!Line.isHeader x) = true := by
    intro x hx
    obtain ⟨j, hj, rfl⟩ := List.mem_take_iff_getElem.mp hx
    rw [hplain j (by omega) _ (List.getElem?_eq_getElem (by omega))]
    rfl
  have htaken : (rest.takeWhile (!Line.isHeader ·))[i]? = some line := by
    rw [← List.take_append_drop (i + 1) rest, List.takeWhile_append_of_pos hfront]
    have hlt := (List.getElem?_eq_some_iff.mp hline).1
    rw [List.getElem?_append_left (by rw [List.length_take]; omega),
      List.getElem?_take_of_lt (by omega), hline]
  exact Nat.add_lt_add_left (lt_length_upToLastOutcome htaken houtcome) _

/-- An outcome after a header is in the body of a block, unless it is a header itself. -/
theorem exists_covering {line : List Char} (houtcome : Line.isOutcome line = true)
    (hplain : Line.isHeader line = false) : ∀ {ls : List (List Char)} {i : Nat} (passed : Nat),
    ls[i]? = some line → (∃ j < i, ∃ header ∈ ls[j]?, Line.isHeader header = true) →
    ∃ b ∈ locateFrom passed ls, b.start < passed + i ∧ passed + i < b.stop
  | l :: ls, i + 1, passed, hline, hafter => by
    rw [List.getElem?_cons_succ] at hline
    rw [locateFrom_cons]
    -- If there is no further header up to the line, the block that begins here goes as far as it.
    by_cases hlater : ∃ j < i, ∃ header ∈ ls[j]?, Line.isHeader header = true
    · obtain ⟨b, hb, hstart, hstop⟩ := exists_covering houtcome hplain (passed + 1) hline hlater
      refine ⟨b, ?_, by omega, by omega⟩
      split_ifs
      · exact List.mem_cons_of_mem _ hb
      · exact hb
    · have hnone : ∀ j ≤ i, ∀ x ∈ ls[j]?, Line.isHeader x = false := by
        intro j hj x hx
        rcases hj.lt_or_eq with hj | rfl
        · exact Bool.of_not_eq_true fun hheader => hlater ⟨j, hj, x, hx, hheader⟩
        · obtain rfl : line = x := Option.some.inj (hline.symm.trans hx)
          exact hplain
      have hheader : Line.isHeader l = true := by
        obtain ⟨j, hj, header, hmem, hheader⟩ := hafter
        cases j with
        | zero =>
          obtain rfl : l = header := Option.some.inj hmem
          exact hheader
        | succ j => exact absurd ⟨j, by omega, header, hmem, hheader⟩ hlater
      rw [if_pos hheader]
      have hstop := lt_stop_opened passed l hline houtcome hnone
      refine ⟨_, List.mem_cons_self, ?_, by omega⟩
      show passed < passed + (i + 1)
      omega

/-- The numbers of the lines at which blocks start are those of the headers. -/
theorem exists_start_eq_iff {ls : List (List Char)} {i : Nat} :
    (∃ b ∈ locateFrom 0 ls, b.start = i) ↔ ∃ header ∈ ls[i]?, Line.isHeader header = true := by
  rw [← List.mem_map, starts_locateFrom, List.mem_map]
  constructor
  · rintro ⟨⟨header, _⟩, hmem, rfl⟩
    obtain ⟨hmem, hheader⟩ := List.mem_filter.mp hmem
    exact ⟨header, List.mk_mem_zipIdx_iff_getElem?.mp hmem, hheader⟩
  · rintro ⟨header, hmem, hheader⟩
    exact ⟨(header, i), List.mem_filter.mpr ⟨List.mk_mem_zipIdx_iff_getElem?.mpr hmem, hheader⟩, rfl⟩

/-- Two blocks over one line are the same block. -/
theorem eq_of_apart {blocks : List Block} (h : blocks.Pairwise fun a b => a.stop ≤ b.start)
    {b c : Block} (hb : b ∈ blocks) (hc : c ∈ blocks) {i : Nat} (hbi : b.start < i ∧ i < b.stop)
    (hci : c.start < i ∧ i < c.stop) : b = c := by
  by_contra hne
  have heither : blocks.Pairwise fun a b => a.stop ≤ b.start ∨ b.stop ≤ a.start := h.imp .inl
  have : Std.Symm fun a b : Block => a.stop ≤ b.start ∨ b.stop ≤ a.start := ⟨fun _ _ => Or.symm⟩
  rcases heither.forall hb hc hne with hle | hle
  · omega
  · omega

/-- No block is over a line between two blocks of which one follows the other. -/
theorem not_over_of_apart {blocks : List Block} (h : blocks.Pairwise fun a b => a.stop ≤ b.start)
    {a b c : Block} (hab : [a, b] <:+: blocks) (hc : c ∈ blocks) {i : Nat} (hstop : a.stop ≤ i)
    (hstart : i < b.start) : ¬ (c.start ≤ i ∧ i < c.stop) := by
  obtain ⟨pre, post, rfl⟩ := hab
  obtain ⟨hfront, -, hpost⟩ := List.pairwise_append.mp h
  obtain ⟨-, -, hpre⟩ := List.pairwise_append.mp hfront
  rintro ⟨hover, hover'⟩
  rcases List.mem_append.mp hc with hc | hc
  · rcases List.mem_append.mp hc with hc | hc
    · have hle := hpre c hc a List.mem_cons_self
      rw [stop] at hstop
      omega
    · rcases List.mem_pair.mp hc with rfl | rfl <;> omega
  · have hle := hpost b (by simp) c hc
    rw [stop] at hle
    omega

/-- Every text falls into blocks as its headers and outcomes say. -/
theorem locates_locate (s : List Char) : Locates (solidLines s) (locate s) where
  starts := starts_locateFrom 0 _
  apart := apart_locateFrom 0 _
  lines b hb := by
    obtain ⟨pre, header, rest, hsplit, -, rfl⟩ := exists_of_mem_locateFrom hb
    rw [hsplit, Nat.zero_add]
    exact lines_opened pre header rest
  plain b hb line hline := by
    obtain ⟨pre, header, rest, -, -, rfl⟩ := exists_of_mem_locateFrom hb
    exact isHeader_of_mem_opened hline
  ends b hb line hline := by
    obtain ⟨pre, header, rest, -, -, rfl⟩ := exists_of_mem_locateFrom hb
    exact isOutcome_getLast?_upToLastOutcome hline
  covers i line hline houtcome hplain hafter := by
    obtain ⟨b, hb, hover⟩ := exists_covering houtcome hplain 0 hline hafter
    rw [Nat.zero_add] at hover
    exact ⟨b, ⟨hb, hover⟩, fun c hc => eq_of_apart (apart_locateFrom 0 _) hc.1 hb hc.2 hover⟩
  between a b hab i line hline hstop hstart := by
    refine Bool.of_not_eq_true fun houtcome => ?_
    -- A header would open a block there, and any other outcome is covered by one.
    have hover : ∃ c ∈ locate s, c.start ≤ i ∧ i < c.stop := by
      by_cases hheader : Line.isHeader line = true
      · obtain ⟨c, hc, rfl⟩ := exists_start_eq_iff.mpr ⟨line, hline, hheader⟩
        exact ⟨c, hc, le_rfl, by rw [stop]; omega⟩
      · have ha : a ∈ locate s := hab.subset List.mem_cons_self
        have hafter : a.start < i := by
          rw [stop] at hstop
          omega
        obtain ⟨c, hc, hstart, hstop⟩ := exists_covering houtcome (Bool.of_not_eq_true hheader) 0
          hline ⟨a.start, hafter, exists_start_eq_iff.mp ⟨a, ha, rfl⟩⟩
        exact ⟨c, hc, by omega, by omega⟩
    obtain ⟨c, hc, hover⟩ := hover
    exact not_over_of_apart (apart_locateFrom 0 _) hab hc hstop hstart hover

/-- The remark after the first table belongs to neither block. -/
example : (locate "Intro\nd6 Sky\n1-3. Sun\n4-6. Rain\nA remark\n**2d6 Fight**\nThanks!".toList).map
    (fun b => (b.start, b.stop)) = [(1, 4), (5, 6)] := by decide +kernel

end Block

end DiceTables
