import DiceTables.Proofs.Settled

/-!
Reports lose nothing. What must not be lost are the pieces of a tree: the report of every table and
the notice of every item, scan and link that has failed. Reports are put together from below, and at
each node the pieces of its children are joined in order and its own notice comes first; so in the
report of a request all pieces of its tree stand one after the other. A report that nothing was found
means that there was nothing to lose.
-/

namespace DiceTables

variable {ι τ σ : Type}

/-! ### Pieces -/

namespace Job

/-- Whether a job only gathers what comes of the jobs it leads to. -/
def gathers : Job ι → Bool
  | .rollTable _ | .evalExpr _ => false
  | _ => true

namespace LeadsTo

variable {job job' : Job ι}

theorem ne_request (h : job.LeadsTo job') (r : Request ι) : job' ≠ .request r := by
  rintro rfl
  cases h

theorem ne_expr (h : job.LeadsTo job') (hgathers : job.gathers = true) (e : Expr) :
    job' ≠ .evalExpr e := by
  rintro rfl
  cases h
  simp [gathers] at hgathers

/-- Only items lead to tables. -/
theorem gathers (h : job.LeadsTo job') (hgathers : job.gathers = true)
    (hitem : ∀ item label, job ≠ .parseItem item label) : job'.gathers = true := by
  cases h with
  | table => exact absurd rfl (hitem _ _)
  | expr => simp [Job.gathers] at hgathers
  | _ => rfl

theorem not_of_expr {e : Expr} : ¬(Job.evalExpr e).LeadsTo job := by
  rintro ⟨⟩

end LeadsTo

end Job

namespace Node

open Text

/-- What must not be lost of a node: the report of a table, and the notice of an item, a scan or a link
that has failed. -/
def piece? (n : Node ι) : Option String :=
  match n.job with
  | .rollTable _ => some n.report
  | .parseItem _ _ | .scanLinks _ _ | .followLink _ => n.failure?.map n.notice
  | .request _ | .evalExpr _ => none

/-- What must not be lost of a tree, in the order of its nodes. -/
def pieces (n : Node ι) : List String := n.preorder.filterMap piece?

theorem pieces_eq (n : Node ι) : n.pieces = n.piece?.toList ++ n.children.flatMap pieces :=
  filterMap_preorder piece? n

theorem first?_notice (n : Node ι) (reason : String) : first? (n.notice reason) = some '*' := by
  have hnotice : n.notice reason = "*Sorry, something went wrong while trying to " ++
      (n.job.text ++ ": " ++ reason ++ "*") := by
    simp only [← String.append_assoc]
    rfl
  rw [hnotice]
  exact first?_append (by decide +kernel) _

theorem notice_ne_empty (n : Node ι) (reason : String) : n.notice reason ≠ "" := by
  intro h
  have hfirst := n.first?_notice reason
  rw [h] at hfirst
  simp [first?] at hfirst

theorem mem_childReports {n : Node ι} {report : String} :
    report ∈ n.childReports ↔ (∃ c ∈ n.children, c.report = report) ∧ report ≠ "" := by
  simp [childReports]

theorem joinChildren_eq_empty_iff {n : Node ι} (separator : String) :
    n.joinChildren separator = "" ↔ ∀ c ∈ n.children, c.report = "" := by
  rw [joinChildren, intercalate_eq_empty_iff fun s hs => (mem_childReports.mp hs).2]
  simp [childReports]

theorem first?_joinChildren_ne {n : Node ι} {c : Char}
    (h : ∀ child ∈ n.children, first? child.report ≠ some c) (separator : String) :
    first? (n.joinChildren separator) ≠ some c := by
  refine first?_intercalate_ne (fun s hs => (mem_childReports.mp hs).2) fun s hs => ?_
  obtain ⟨⟨child, hchild, rfl⟩, -⟩ := mem_childReports.mp hs
  exact h child hchild

/-! ### Reports and the pieces of the children -/

variable {n : Node ι}

theorem holds_joinChildren (separator : String) (h : ∀ c ∈ n.children, Holds c.pieces c.report) :
    Holds (n.children.flatMap pieces) (n.joinChildren separator) :=
  holds_intercalate pieces (·.report) h

/-- What stands above the reports of the children of a job that has been done. -/
def heading (n : Node ι) : String :=
  match n.job with
  | .parseItem _ label => "From " ++ label ++ "..." ++ Report.itemBreak
  | _ => ""

/-- What is reported by a job that has been done if its children report nothing. -/
def fallback (n : Node ι) : String :=
  match n.job with
  | .request _ => Report.nothingFound
  | _ => ""

/-- The report of a job that has been done is what its children report, under its heading. -/
theorem doneBody_eq (hgathers : n.job.gathers = true) : ∃ separator,
    n.doneBody = under n.heading n.fallback (n.joinChildren separator) := by
  cases hjob : n.job with
  | request r => exact ⟨Report.sectionBreak, by simp [doneBody, heading, fallback, hjob, under]⟩
  | parseItem item label =>
    refine ⟨Report.itemBreak, ?_⟩
    simp only [doneBody, heading, fallback, hjob, under]
    split
    · next hempty => exact String.isEmpty_iff.mp hempty
    · rfl
  | scanLinks item label =>
    exact ⟨Report.sectionBreak, by simp [doneBody, heading, fallback, hjob]⟩
  | followLink link => exact ⟨Report.sectionBreak, by simp [doneBody, heading, fallback, hjob]⟩
  | rollTable t => simp [hjob, Job.gathers] at hgathers
  | evalExpr e => simp [hjob, Job.gathers] at hgathers

/-- The report of a job that has failed is its notice and, after it, what its children report. -/
theorem failedBody_eq (hgathers : n.job.gathers = true) (reason : String) : ∃ separator,
    n.failedBody reason = n.notice reason ++ under separator "" (n.joinChildren separator) := by
  have hform : ∀ separator : String,
      (if (n.joinChildren separator).isEmpty then n.notice reason
        else n.notice reason ++ separator ++ n.joinChildren separator) =
      n.notice reason ++ under separator "" (n.joinChildren separator) := by
    intro separator
    rw [under]
    split
    · rw [String.append_empty]
    · rw [String.append_assoc]
  cases hjob : n.job with
  | request r => exact ⟨Report.sectionBreak, by simp only [failedBody, hjob, hform]⟩
  | parseItem item label => exact ⟨Report.itemBreak, by simp only [failedBody, hjob, hform]⟩
  | scanLinks item label => exact ⟨Report.sectionBreak, by simp only [failedBody, hjob, hform]⟩
  | followLink link => exact ⟨Report.sectionBreak, by simp only [failedBody, hjob, hform]⟩
  | rollTable t => simp [hjob, Job.gathers] at hgathers
  | evalExpr e => simp [hjob, Job.gathers] at hgathers

theorem holds_doneBody (hgathers : n.job.gathers = true)
    (h : ∀ c ∈ n.children, Holds c.pieces c.report) :
    Holds (n.children.flatMap pieces) n.doneBody := by
  obtain ⟨separator, hbody⟩ := doneBody_eq hgathers
  rw [hbody]
  exact (holds_joinChildren separator h).under _ _

theorem holds_failedBody (hgathers : n.job.gathers = true)
    (h : ∀ c ∈ n.children, Holds c.pieces c.report) (reason : String) :
    ∃ rest, n.failedBody reason = n.notice reason ++ rest ∧
      Holds (n.children.flatMap pieces) rest := by
  obtain ⟨separator, hbody⟩ := failedBody_eq hgathers reason
  exact ⟨_, hbody, (holds_joinChildren separator h).under _ _⟩

theorem body_of_done (h : n.status = .done) : n.body = n.doneBody := by
  simp only [body, failure?, h]

theorem body_of_failed {reason : String} (h : n.status = .failed reason) :
    n.body = n.failedBody reason := by
  simp only [body, failure?, h]

theorem render_of_not_request (h : ∀ r, n.job ≠ .request r) (config : Config) :
    n.render config = n.body := by
  cases hjob : n.job with
  | request r => exact absurd hjob (h r)
  | _ => simp only [render, hjob]

end Node

/-! ### Trees that are done -/

namespace Workshop

open Text

variable {w : Workshop ι τ σ} {n : Node ι}

theorem Closed.done_or_failed (h : w.Closed n) :
    n.status = .done ∨ ∃ reason, n.status = .failed reason := by
  cases hstatus : n.status with
  | pending => exact absurd hstatus h.executed
  | done => exact .inl rfl
  | failed reason => exact .inr ⟨reason, rfl⟩

theorem Closed.report_eq_body (h : w.Closed n) (hjob : ∀ r, n.job ≠ .request r) :
    n.report = n.body := by
  rw [h.report_eq, Node.render_of_not_request hjob]

/-- A table reports its outcome, or a notice. -/
theorem Closed.table_report (h : w.Closed n) {t : Table} (hjob : n.job = .rollTable t) :
    (∃ o, n.output = some (.outcome o) ∧ n.report = o.text) ∨
      ∃ reason, n.status = .failed reason ∧ n.report = n.notice reason := by
  rw [h.report_eq_body (by simp [hjob])]
  rcases h.done_or_failed with hdone | ⟨reason, hfailed⟩
  · obtain ⟨child, hchild⟩ := h.table t hjob
    obtain ⟨o, ho⟩ := hchild.done_iff.mp hdone
    exact .inl ⟨o, ho, by simp only [Node.body_of_done hdone, Node.doneBody, hjob, ho]⟩
  · refine .inr ⟨reason, hfailed, ?_⟩
    simp [Node.body_of_failed hfailed, Node.failedBody, hjob]

theorem Closed.children_of_expr (h : w.Closed n) {e : Expr} (hjob : n.job = .evalExpr e) :
    n.children = [] := by
  refine List.eq_nil_iff_forall_not_mem.mpr fun c hc => ?_
  have hleads := h.leadsTo c hc
  rw [hjob] at hleads
  exact Job.LeadsTo.not_of_expr hleads

/-- The report of a tree below a request holds all pieces of the tree. -/
theorem holds_report : ∀ n : Node ι, (∀ m ∈ n.preorder, w.Closed m) → (∀ r, n.job ≠ .request r) →
    Holds n.pieces n.report := by
  intro n
  induction n using Node.induct with
  | h n ih =>
    intro hall hrequest
    obtain ⟨hn, hbelow⟩ := Node.forall_mem_preorder.mp hall
    have hchildren : ∀ c ∈ n.children, Holds c.pieces c.report := fun c hc =>
      ih c hc (hbelow c hc) (hn.leadsTo c hc).ne_request
    rw [Node.pieces_eq]
    cases hjob : n.job with
    | request r => exact absurd hjob (hrequest r)
    | evalExpr e => simp [Node.piece?, hjob, hn.children_of_expr hjob, Holds]
    | rollTable t =>
      obtain ⟨child, hchild⟩ := hn.table t hjob
      have hclosed : w.Closed child := by
        have hmem : child ∈ n.children := by rw [hchild.children_eq]; exact List.mem_singleton_self _
        exact (Node.forall_mem_preorder.mp (hbelow child hmem)).1
      have hpieces : child.pieces = [] := by
        simp [Node.pieces_eq child, Node.piece?, hchild.job_eq, hclosed.children_of_expr hchild.job_eq]
      simpa [Node.piece?, hjob, hchild.children_eq, hpieces] using holds_singleton n.report
    | _ =>
      have hgathers : n.job.gathers = true := by simp [hjob, Job.gathers]
      rw [hn.report_eq_body hrequest]
      rcases hn.done_or_failed with hdone | ⟨reason, hfailed⟩
      · have hdoneBody := Node.holds_doneBody hgathers hchildren
        simpa [Node.piece?, hjob, Node.failure?, hdone, Node.body_of_done] using hdoneBody
      · obtain ⟨rest, hbody, hrest⟩ := Node.holds_failedBody hgathers hchildren reason
        have hnotice := (holds_singleton (n.notice reason)).append hrest
        simpa [Node.piece?, hjob, Node.failure?, hfailed, Node.body_of_failed, hbody] using hnotice

end Workshop

/-! ### Where nothing was found -/

theorem Selection.line_ne_empty (s : Selection) : s.line ≠ "" := by
  obtain ⟨before, hline⟩ : ∃ before, s.line = before ++ ": " ++ s.text := ⟨_, rfl⟩
  simp [hline, String.append_eq_empty_iff]

theorem Outcome.text_ne_empty (o : Outcome) : o.text ≠ "" := by
  intro h
  rw [text, Text.intercalate_eq_empty_iff] at h
  · simp [selections] at h
  · intro line hline
    obtain ⟨s, -, rfl⟩ := List.mem_map.mp hline
    exact s.line_ne_empty

namespace Node

/-- Nothing has been found in a tree, and nothing has failed. -/
def Quiet (n : Node ι) : Prop := ∀ m ∈ n.preorder, m.job.table? = none ∧ m.failure? = none

variable {n : Node ι}

theorem quiet_iff :
    n.Quiet ↔ (n.job.table? = none ∧ n.failure? = none) ∧ ∀ c ∈ n.children, c.Quiet :=
  forall_mem_preorder

theorem fallback_of_not_request (h : ∀ r, n.job ≠ .request r) : n.fallback = "" := by
  cases hjob : n.job with
  | request r => exact absurd hjob (h r)
  | _ => simp only [fallback, hjob]

theorem doneBody_eq_empty_iff (hgathers : n.job.gathers = true) (hrequest : ∀ r, n.job ≠ .request r) :
    n.doneBody = "" ↔ ∀ c ∈ n.children, c.report = "" := by
  obtain ⟨separator, hbody⟩ := doneBody_eq hgathers
  rw [hbody, fallback_of_not_request hrequest, Text.under_eq_empty_iff, joinChildren_eq_empty_iff]

/-- Only items report under a heading, which names them. -/
theorem heading_cases (n : Node ι) : Text.first? n.heading = some 'F' ∨
    n.heading = "" ∧ ∀ item label, n.job ≠ .parseItem item label := by
  cases hjob : n.job with
  | parseItem item label =>
    have hheading : n.heading = "From " ++ (label ++ "..." ++ Report.itemBreak) := by
      simp only [heading, hjob, String.append_assoc]
    rw [hheading]
    exact .inl (Text.first?_append (by decide +kernel) _)
  | _ => simp [heading, hjob]

theorem first?_failedBody (hgathers : n.job.gathers = true) (reason : String) :
    Text.first? (n.failedBody reason) = some '*' := by
  obtain ⟨separator, hbody⟩ := failedBody_eq hgathers reason
  rw [hbody]
  exact Text.first?_append (n.first?_notice reason) _

end Node

namespace Workshop

variable {w : Workshop ι τ σ}

/-- A tree below a request reports nothing exactly if it is quiet. -/
theorem report_eq_empty_iff : ∀ n : Node ι, (∀ m ∈ n.preorder, w.Closed m) →
    (∀ r, n.job ≠ .request r) → (∀ e, n.job ≠ .evalExpr e) → (n.report = "" ↔ n.Quiet) := by
  intro n
  induction n using Node.induct with
  | h n ih =>
    intro hall hrequest hexpr
    obtain ⟨hn, hbelow⟩ := Node.forall_mem_preorder.mp hall
    rw [Node.quiet_iff]
    by_cases hgathers : n.job.gathers = true
    · have hchildren : ∀ c ∈ n.children, (c.report = "" ↔ c.Quiet) := fun c hc =>
        ih c hc (hbelow c hc) (hn.leadsTo c hc).ne_request ((hn.leadsTo c hc).ne_expr hgathers)
      have htable : n.job.table? = none := by
        cases hjob : n.job with
        | rollTable t => simp [hjob, Job.gathers] at hgathers
        | _ => rfl
      rw [hn.report_eq_body hrequest]
      rcases hn.done_or_failed with hdone | ⟨reason, hfailed⟩
      · rw [Node.body_of_done hdone, Node.doneBody_eq_empty_iff hgathers hrequest]
        simpa [htable, Node.failure?, hdone] using forall₂_congr hchildren
      · have hfirst := Node.first?_failedBody hgathers reason
        rw [Node.body_of_failed hfailed]
        refine iff_of_false (fun hempty => ?_) (by simp [Node.failure?, hfailed])
        simp [hempty, Text.first?] at hfirst
    · cases hjob : n.job with
      | rollTable t =>
        refine iff_of_false ?_ (by simp [Job.table?])
        rcases hn.table_report hjob with ⟨o, -, hreport⟩ | ⟨reason, -, hreport⟩
        · exact hreport ▸ o.text_ne_empty
        · exact hreport ▸ n.notice_ne_empty reason
      | evalExpr e => exact absurd hjob (hexpr e)
      | _ => simp [hjob, Job.gathers] at hgathers

/-- The report of an item, a scan or a link does not read like the one on a request for which nothing
was found. -/
theorem first?_report_ne : ∀ n : Node ι, (∀ m ∈ n.preorder, w.Closed m) → n.job.gathers = true →
    (∀ r, n.job ≠ .request r) → Text.first? n.report ≠ some 'I' := by
  intro n
  induction n using Node.induct with
  | h n ih =>
    intro hall hgathers hrequest
    obtain ⟨hn, hbelow⟩ := Node.forall_mem_preorder.mp hall
    have hjoin : (∀ item label, n.job ≠ .parseItem item label) → ∀ separator,
        Text.first? (n.joinChildren separator) ≠ some 'I' := by
      intro hitem
      refine Node.first?_joinChildren_ne fun c hc => ?_
      have hleads := hn.leadsTo c hc
      exact ih c hc (hbelow c hc) (hleads.gathers hgathers hitem) hleads.ne_request
    rw [hn.report_eq_body hrequest]
    rcases hn.done_or_failed with hdone | ⟨reason, hfailed⟩
    · obtain ⟨separator, hbody⟩ := Node.doneBody_eq hgathers
      rw [Node.body_of_done hdone, hbody, Node.fallback_of_not_request hrequest]
      rcases n.heading_cases with hheading | ⟨hheading, hitem⟩
      · refine Text.first?_under_ne (by simp [hheading]) fun hempty => ?_
        simp [hempty, Text.first?] at hheading
      · exact Text.first?_under_ne (by simp [hheading, Text.first?]) fun _ => hjoin hitem separator
    · rw [Node.body_of_failed hfailed, Node.first?_failedBody hgathers]
      decide

theorem first?_nothingFound : Text.first? Report.nothingFound = some 'I' :=
  Text.first?_append (Text.first?_append (by decide +kernel) _) _

/-- The body of a request says that nothing was found exactly if nothing was and nothing failed. -/
theorem body_eq_nothingFound_iff {root : Node ι} (hall : ∀ m ∈ root.preorder, w.Closed m)
    {request : Request ι} (hjob : root.job = .request request) :
    root.body = Report.nothingFound ↔ root.status = .done ∧ root.Quiet := by
  obtain ⟨hroot, hbelow⟩ := Node.forall_mem_preorder.mp hall
  have hgathers : root.job.gathers = true := by simp [hjob, Job.gathers]
  rcases hroot.done_or_failed with hdone | ⟨reason, hfailed⟩
  · have hjoin : root.joinChildren Report.sectionBreak = "" ↔ root.Quiet := by
      have hchildren : ∀ c ∈ root.children, (c.report = "" ↔ c.Quiet) := fun c hc =>
        report_eq_empty_iff c (hbelow c hc) (hroot.leadsTo c hc).ne_request
          ((hroot.leadsTo c hc).ne_expr hgathers)
      rw [Node.joinChildren_eq_empty_iff, Node.quiet_iff]
      simpa [hjob, Job.table?, Node.failure?, hdone] using forall₂_congr hchildren
    have hfirst : Text.first? (root.joinChildren Report.sectionBreak) ≠ some 'I' := by
      refine Node.first?_joinChildren_ne (fun c hc => ?_) Report.sectionBreak
      have hleads := hroot.leadsTo c hc
      exact first?_report_ne c (hbelow c hc) (hleads.gathers hgathers (by simp [hjob]))
        hleads.ne_request
    rw [Node.body_of_done hdone, ← hjoin]
    simp only [Node.doneBody, hjob, hdone, true_and]
    split
    · next hempty => simpa using hempty
    · next hempty =>
      refine iff_of_false (fun heq => ?_) (by simpa using hempty)
      rw [heq] at hfirst
      exact hfirst first?_nothingFound
  · refine iff_of_false (fun heq => ?_) (by simp [hfailed])
    have hfirst := Node.first?_failedBody hgathers reason
    rw [← Node.body_of_failed hfailed, heq, first?_nothingFound] at hfirst
    simp at hfirst

theorem report_of_request {root : Node ι} (h : w.Closed root) {request : Request ι}
    (hjob : root.job = .request request) : root.report = root.body ++ root.footer w.config := by
  rw [h.report_eq]
  simp only [Node.render, hjob]

variable [DecidableEq ι]

/-- The report on a request holds the reports of all tables of its tree and the notices of all items,
scans and links that have failed, in the order of the tree; if the request itself has failed, these
come after its own notice. It says that nothing was found exactly if the request is done and there is
neither a table nor a failure in its tree. -/
theorem report_holds_pieces (w : Workshop ι τ σ) (h : w.roller.Answers) (request : Request ι) :
    Gives (w.answer request) fun root =>
      root.report = root.body ++ root.footer w.config ∧
      Text.Holds root.pieces root.report ∧
      (∀ reason, root.status = .failed reason → ∃ rest,
        root.report = root.notice reason ++ rest ∧ Text.Holds root.pieces rest) ∧
      (root.body = Report.nothingFound ↔ root.status = .done ∧ root.Quiet) ∧
      ∀ m ∈ root.preorder, ∀ t, m.job = .rollTable t →
        (∃ o, m.output = some (.outcome o) ∧ m.report = o.text) ∨
          ∃ reason, m.status = .failed reason ∧ m.report = m.notice reason := by
  refine (closed_perform h (.request request)).mono fun root ⟨hjob, hall⟩ => ?_
  obtain ⟨hroot, hbelow⟩ := Node.forall_mem_preorder.mp hall
  have hgathers : root.job.gathers = true := by simp [hjob, Job.gathers]
  have hreport := report_of_request hroot hjob
  have hchildren : ∀ c ∈ root.children, Text.Holds c.pieces c.report := fun c hc =>
    holds_report c (hbelow c hc) (hroot.leadsTo c hc).ne_request
  have hpieces : root.pieces = root.children.flatMap Node.pieces := by
    simp [Node.pieces_eq root, Node.piece?, hjob]
  have hfailure : ∀ reason, root.status = .failed reason → ∃ rest,
      root.report = root.notice reason ++ rest ∧ Text.Holds root.pieces rest := by
    intro reason hfailed
    obtain ⟨rest, hbody, hrest⟩ := Node.holds_failedBody hgathers hchildren reason
    refine ⟨rest ++ root.footer w.config, ?_, hpieces ▸ hrest.before _⟩
    rw [hreport, Node.body_of_failed hfailed, hbody, String.append_assoc]
  refine ⟨hreport, ?_, hfailure, body_eq_nothingFound_iff hall hjob, fun m hm t => ?_⟩
  · rcases hroot.done_or_failed with hdone | ⟨reason, hfailed⟩
    · rw [hreport, Node.body_of_done hdone, hpieces]
      exact (Node.holds_doneBody hgathers hchildren).before _
    · obtain ⟨rest, hrest, hholds⟩ := hfailure reason hfailed
      exact hrest ▸ hholds.after _
  · exact (hall m hm).table_report

/-- A message with a table that divides by zero and a link that cannot be followed: its report holds
both notices. -/
theorem report_with_two_notices :
    let memory : Memory := { items := [
      { content := { text := "https://example.com/gone\n\nd4 / d4 Shares\n0-1. Few\n2-4. Many" } }] }
    let source := Memory.source.during { target := fun _ => true } "the server is down"
    let w : Workshop Nat Memory Unit := Workshop.mk {} source (.fixed 0)
    w.roller.Answers ∧ ∃ root, w.answer (.message 0) (memory, ()) = some (root, memory, ()) ∧
      root.pieces = ["*Sorry, something went wrong while trying to roll the d4 / d4 Shares table: " ++
          "the roll failed: division by zero*",
        "*Sorry, something went wrong while trying to follow the link to https://example.com/gone: " ++
          "couldn't fetch content: the server is down*"] ∧
      Text.Holds root.pieces root.report ∧ root.body ≠ Report.nothingFound := by
  intro memory source w
  have hanswers : w.roller.Answers := Roller.answers_fixed 0
  refine ⟨hanswers, ?_⟩
  have hfacts : (w.answer (.message 0) (memory, ())).any (fun r => r.2 = (memory, ()) ∧
      r.1.pieces = ["*Sorry, something went wrong while trying to roll the d4 / d4 Shares table: " ++
          "the roll failed: division by zero*",
        "*Sorry, something went wrong while trying to follow the link to https://example.com/gone: " ++
          "couldn't fetch content: the server is down*"] ∧
      r.1.body ≠ Report.nothingFound) = true := by decide +kernel
  obtain ⟨root, s, hrun, -, hholds, -⟩ := report_holds_pieces w hanswers (.message 0) (memory, ())
  rw [hrun, Option.any_some] at hfacts
  obtain ⟨rfl, hpieces, hbody⟩ := of_decide_eq_true hfacts
  exact ⟨root, hrun, hpieces, hholds, hbody⟩

end Workshop

end DiceTables
