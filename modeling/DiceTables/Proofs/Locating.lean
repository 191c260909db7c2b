import DiceTables.Proofs.Computation
import DiceTables.Proofs.Lines
import DiceTables.Table.Locate

/-!
Finding tables in a text. The solid lines of a text fall into segments, each from a header up to the
next one. The main statement is that the tables of a text are those of its segments, each read as a
text of its own: what a segment makes depends on nothing outside it, and the lines after its last
outcome do not matter.
-/

namespace DiceTables

open Text Scanner

variable {limits : Limits}

/-! ### Lines after the last outcome -/

namespace Entry

theorem ofLine?_of_not_isOutcome {line : List Char} (h : Line.isOutcome line = false) :
    ofLine? line = none := by
  have hnumbered : Line.numbered? line = none := by
    simpa using (Bool.or_eq_false_iff.mp h).1
  rw [ofLine?, hnumbered]
  rfl

theorem bulleted?_of_not_isOutcome {line : List Char} (h : Line.isOutcome line = false) :
    Line.bulleted? line = none := by
  simpa using (Bool.or_eq_false_iff.mp h).2

/-- Lines that are no outcomes make no difference to the outcomes. -/
theorem ofLines_append (low : Int) (body : List (List Char)) {more : List (List Char)}
    (h : ∀ line ∈ more, Line.isOutcome line = false) :
    ofLines low (body ++ more) = ofLines low body := by
  have hnumbered : more.filterMap ofLine? = [] :=
    List.filterMap_eq_nil_iff.mpr fun line hline => ofLine?_of_not_isOutcome (h line hline)
  have hbulleted : more.filterMap Line.bulleted? = [] :=
    List.filterMap_eq_nil_iff.mpr fun line hline => bulleted?_of_not_isOutcome (h line hline)
  simp only [ofLines, List.filterMap_append, hnumbered, hbulleted, List.append_nil]

end Entry

theorem Table.build_append (header : List Char) (body : List (List Char))
    {more : List (List Char)} (h : ∀ line ∈ more, Line.isOutcome line = false) :
    Table.build header (body ++ more) limits = Table.build header body limits := by
  unfold build
  simp only [Entry.ofLines_append _ body h]

theorem Block.exists_upToLastOutcome_append (ls : List (List Char)) :
    ∃ more, ls = upToLastOutcome ls ++ more ∧ ∀ line ∈ more, Line.isOutcome line = false := by
  refine ⟨(ls.reverse.takeWhile (!Line.isOutcome ·)).reverse, ?_, fun line hline => ?_⟩
  · rw [upToLastOutcome, ← List.reverse_append, List.takeWhile_append_dropWhile,
      List.reverse_reverse]
  · simpa using List.mem_takeWhile_imp (List.mem_reverse.mp hline)

/-- A block is built without the lines after its last outcome as it is with them. -/
theorem Table.build_upToLastOutcome (header : List Char) (body : List (List Char)) :
    Table.build header (Block.upToLastOutcome body) limits = Table.build header body limits := by
  obtain ⟨more, heq, hmore⟩ := Block.exists_upToLastOutcome_append body
  calc Table.build header (Block.upToLastOutcome body) limits
      = Table.build header (Block.upToLastOutcome body ++ more) limits :=
        (Table.build_append header _ hmore).symm
    _ = Table.build header body limits := by rw [← heq]

/-! ### Segments -/

/-- A header and the lines up to the next header. -/
def IsSegment (segment : List (List Char)) : Prop := ∃ header body, segment = header :: body ∧
  Line.isHeader header = true ∧ ∀ line ∈ body, Line.isHeader line = false

/-- Lines cut into segments, after some lines before the first header. -/
structure Segmented (ls lead : List (List Char)) (segments : List (List (List Char))) : Prop where
  eq : ls = lead ++ segments.flatten
  lead_plain : ∀ line ∈ lead, Line.isHeader line = false
  segments_each : ∀ segment ∈ segments, IsSegment segment

/-- All lines can be cut into segments. -/
theorem exists_segmented : ∀ ls : List (List Char), ∃ lead segments, Segmented ls lead segments
  | [] => ⟨[], [], rfl, by simp, by simp⟩
  | line :: ls => by
    obtain ⟨lead, segments, heq, hlead, hsegments⟩ := exists_segmented ls
    by_cases hheader : Line.isHeader line = true
    · refine ⟨[], (line :: lead) :: segments, by simp [heq], by simp, ?_⟩
      exact List.forall_mem_cons.mpr ⟨⟨line, lead, rfl, hheader, hlead⟩, hsegments⟩
    · refine ⟨line :: lead, segments, by simp [heq], ?_, hsegments⟩
      exact List.forall_mem_cons.mpr ⟨Bool.of_not_eq_true hheader, hlead⟩

theorem stops_flatten {segments : List (List (List Char))}
    (h : ∀ segment ∈ segments, IsSegment segment) :
    Stops (!Line.isHeader ·) segments.flatten := by
  cases segments with
  | nil => exact .nil
  | cons segment segments =>
    obtain ⟨header, body, rfl, hheader, -⟩ := h segment List.mem_cons_self
    exact .cons (by rw [hheader]; rfl) _

namespace Block

theorem locateFrom_append : ∀ {lead : List (List Char)} (passed : Nat) (rest : List (List Char)),
    (∀ line ∈ lead, Line.isHeader line = false) →
    locateFrom passed (lead ++ rest) = locateFrom (passed + lead.length) rest
  | [], passed, rest, _ => rfl
  | line :: lead, passed, rest, h => by
    obtain ⟨hline, hlead⟩ := List.forall_mem_cons.mp h
    rw [List.cons_append, locateFrom, hline, locateFrom_append (passed + 1) rest hlead,
      List.length_cons, Nat.add_assoc, Nat.add_comm 1]
    rfl

/-- A segment opens one block, whose body is what the segment has up to its last outcome. -/
theorem locateFrom_segment {header : List Char} {body rest : List (List Char)} (passed : Nat)
    (hheader : Line.isHeader header = true) (hbody : ∀ line ∈ body, Line.isHeader line = false)
    (hrest : Stops (!Line.isHeader ·) rest) :
    locateFrom passed (header :: (body ++ rest)) =
      { header, body := upToLastOutcome body, start := passed } ::
        locateFrom (passed + 1 + body.length) rest := by
  have htake : (body ++ rest).takeWhile (!Line.isHeader ·) = body :=
    takeWhile_append (fun line hline => by rw [hbody line hline]; rfl) hrest
  rw [locateFrom, if_pos hheader, locateFrom_append _ _ hbody, htake]

end Block

theorem Table.ofText_joinLines {header : List Char} {body : List (List Char)}
    (h : ∀ line ∈ header :: body, IsSolid line) :
    Table.ofText (joinLines (header :: body)) limits = Table.build header body limits := by
  rw [ofText, solidLines_joinLines_of_isSolid h]

/-- The tables of the blocks of some segments are those of the segments as texts of their own. -/
theorem tables_locateFrom : ∀ {segments : List (List (List Char))} (passed : Nat),
    (∀ segment ∈ segments, IsSegment segment) → (∀ line ∈ segments.flatten, IsSolid line) →
    (Block.locateFrom passed segments.flatten).filterMap (fun b => (b.table limits).toOption) =
      segments.filterMap fun segment => (Table.ofText (joinLines segment) limits).toOption
  | [], _, _, _ => rfl
  | segment :: segments, passed, h, hsolid => by
    obtain ⟨⟨header, body, rfl, hheader, hbody⟩, hmore⟩ := List.forall_mem_cons.mp h
    rw [List.flatten_cons] at hsolid ⊢
    obtain ⟨hsegment, hrest⟩ := List.forall_mem_append.mp hsolid
    have htable : (Block.mk header (Block.upToLastOutcome body) passed).table limits =
        Table.ofText (joinLines (header :: body)) limits := by
      rw [Table.ofText_joinLines hsegment]
      exact Table.build_upToLastOutcome header body
    rw [List.cons_append, Block.locateFrom_segment passed hheader hbody (stops_flatten hmore),
      List.filterMap_cons, List.filterMap_cons, htable, tables_locateFrom _ hmore hrest]

/-- The tables of a text are, in order, those of its segments that make one when they are read by
themselves; every text has its segments; and lines without outcomes at the end of a table do not
change it. -/
theorem tables_of_segments (s : List Char) (limits : Limits) :
    (∃ lead segments, Segmented (solidLines s) lead segments) ∧
    (∀ lead segments, Segmented (solidLines s) lead segments →
      Table.allIn s limits =
        segments.filterMap fun segment => (Table.ofText (joinLines segment) limits).toOption) ∧
    ∀ header body more, (∀ line ∈ more, Line.isOutcome line = false) →
      Table.build header (body ++ more) limits = Table.build header body limits := by
  refine ⟨exists_segmented _, fun lead segments h => ?_,
    fun header body more hmore => Table.build_append header body hmore⟩
  have hsolid : ∀ line ∈ segments.flatten, IsSolid line := by
    intro line hline
    refine isSolid_of_mem_solidLines (s := s) ?_
    rw [h.eq]
    exact List.mem_append_right lead hline
  rw [Table.allIn, Block.locate, h.eq, Block.locateFrom_append 0 _ h.lead_plain]
  exact tables_locateFrom _ h.segments_each hsolid

/-- A broken block in front of a table and a line of prose after it change nothing. -/
example : (Table.allIn "d6 Lost\nd2 Coin\n1. Heads\n2. Tails\nEnjoy!".toList {}).map Table.text =
    ["d2 Coin"] := by decide +kernel

end DiceTables
