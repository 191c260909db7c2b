import DiceTables.Proofs.FanOut
import DiceTables.Proofs.LineBreaks

/-!
The work log. It lists the nodes of a tree from the root down, each by the text of its job and what
came of it. What came of it always takes one line, and so does the text of a job, except that the
address of a link and the text of a link stand in it as they were written. So the log has one line for
each node just if the links that were followed are on one line; a break within one of them adds a line,
and what comes after the break can look like a line of another node.
-/

namespace DiceTables

open Text

variable {ι τ σ : Type}

/-! ### The lines of a log -/

namespace Node

/-- The line of a node of some depth. -/
def logLine (depth : Nat) (n : Node ι) : String :=
  String.join (List.replicate depth "  ") ++ n.job.text ++ ": " ++ summary n.status n.output

mutual

/-- The nodes of a tree, each before those below it, with their depths below a root of some depth. -/
def outline (depth : Nat) : Node ι → List (Nat × Node ι)
  | ⟨job, status, output, report, children⟩ =>
    (depth, ⟨job, status, output, report, children⟩) :: outlineAll (depth + 1) children

/-- The nodes of several trees whose roots have the same depth. -/
def outlineAll (depth : Nat) : List (Node ι) → List (Nat × Node ι)
  | [] => []
  | n :: more => n.outline depth ++ outlineAll depth more

end

mutual

/-- The log has the nodes of the tree in their order. -/
theorem treeLines_eq : ∀ (n : Node ι) (depth : Nat),
    n.treeLines depth = (n.outline depth).map fun (depth, n) => n.logLine depth
  | ⟨job, status, output, report, children⟩, depth => by
    rw [treeLines, outline, List.map_cons, allTreeLines_eq children]
    rfl

theorem allTreeLines_eq : ∀ (l : List (Node ι)) (depth : Nat),
    allTreeLines depth l = (outlineAll depth l).map fun (depth, n) => n.logLine depth
  | [], depth => rfl
  | n :: more, depth => by
    rw [allTreeLines, outlineAll, List.map_append, treeLines_eq n, allTreeLines_eq more]

end

mutual

theorem map_snd_outline : ∀ (n : Node ι) (depth : Nat), (n.outline depth).map Prod.snd = n.preorder
  | ⟨job, status, output, report, children⟩, depth => by
    rw [outline, List.map_cons, map_snd_outlineAll children, preorder]

theorem map_snd_outlineAll : ∀ (l : List (Node ι)) (depth : Nat),
    (outlineAll depth l).map Prod.snd = preorderAll l
  | [], depth => rfl
  | n :: more, depth => by
    rw [outlineAll, List.map_append, map_snd_outline n, map_snd_outlineAll more, preorderAll]

end

mutual

theorem length_preorder : ∀ n : Node ι, n.preorder.length = n.count
  | ⟨job, status, output, report, children⟩ => by
    rw [preorder, List.length_cons, length_preorderAll children, count, Nat.add_comm]

theorem length_preorderAll : ∀ l : List (Node ι), (preorderAll l).length = countAll l
  | [] => rfl
  | n :: more => by
    rw [preorderAll, List.length_append, length_preorder n, length_preorderAll more, countAll]

end

theorem toList_logLine (depth : Nat) (n : Node ι) : (n.logLine depth).toList =
    List.replicate (2 * depth) ' ' ++ (n.job.text ++ ": " ++ summary n.status n.output).toList := by
  rw [← toList_indentation, ← String.toList_append]
  simp only [logLine, String.append_assoc]

theorem toList_tree (n : Node ι) : n.tree.toList =
    joinLines ((n.outline 0).map fun (depth, n) => (n.logLine depth).toList) := by
  rw [tree, String.toList_intercalate, treeLines_eq, List.map_map]
  rfl

end Node

/-- The text of a job starts with a word. -/
theorem Job.startsSolid_text (job : Job ι) : StartsSolid job.text := by
  have hword : ∀ {s : String}, s.toList ≠ [] → s.toList.head? ≠ some ' ' → StartsSolid s := by
    intro s hne hhead
    refine ⟨hne, fun c hc => decide_eq_false ?_⟩
    rintro rfl
    exact hhead hc
  rcases job with (item | item) | ⟨item, label⟩ | ⟨item, label⟩ | link | t | e
  · exact hword (s := "answer a mention") (by decide) (by decide)
  · exact hword (s := "answer a private message") (by decide) (by decide)
  · exact (hword (s := "look for tables in ") (by decide) (by decide)).append label
  · exact (hword (s := "look for links in ") (by decide) (by decide)).append label
  · exact (hword (s := "follow the link to ") (by decide) (by decide)).append link.href
  · exact ((hword (s := "roll the ") (by decide) (by decide)).append t.text).append " table"
  · exact (hword (s := "roll ") (by decide) (by decide)).append e.text

theorem Request.oneLine_text (request : Request ι) : OneLine (Job.request request).text := by
  have hmention : OneLine "answer a mention" := by decide
  have hmessage : OneLine "answer a private message" := by decide
  cases request
  exacts [hmention, hmessage]

/-- A line of the log is indented by twice the depth of its node. -/
theorem Node.indent_logLine (depth : Nat) (n : Node ι) :
    indent (n.logLine depth).toList = 2 * depth := by
  rw [toList_logLine]
  exact indent_append _ ((n.job.startsSolid_text.append ": ").append _).2

/-! ### What a job comes to -/

/-- What a job comes to takes one line of the log. -/
def OnOneLine : Result → Prop
  | .ok none => True
  | .ok (some output) => EndsLine output.text
  | .error failure => Unbroken failure.message

/-- Whatever message there is instead of an answer has no line break in it. -/
def TerseAnswer {α : Type} (answer : Except String α) : Prop :=
  ∀ message, answer = .error message → Unbroken message

/-- A source whose messages have no line breaks in them. -/
structure Source.Terse (source : Source ι τ) : Prop where
  content : ∀ item asked, TerseAnswer ((source.content item).run asked).1
  target : ∀ href asked, TerseAnswer ((source.target href).run asked).1
  comments : ∀ item asked, TerseAnswer ((source.comments item).run asked).1
  submission : ∀ item asked, TerseAnswer ((source.submission item).run asked).1

theorem MemoryError.unbroken_message (err : MemoryError) : Unbroken err.message := by
  cases err with
  | unknownItem id =>
    exact (Unbroken.append (s := "no such item: ItemId(") (by decide) (.natRepr id)).append (by decide)
  | endlessReplies id =>
    exact (Unbroken.append (s := "no end of replies above item: ItemId(") (by decide)
      (.natRepr id)).append (by decide)

theorem Memory.terse_source : Memory.source.Terse := by
  have hmapped : ∀ {α : Type} (x : Except MemoryError α),
      TerseAnswer (x.mapError MemoryError.message) := by
    rintro α (err | a) message h
    · cases h
      exact err.unbroken_message
    · cases h
  exact {
    content := fun _ _ => hmapped _
    target := fun _ _ _ h => by cases h
    comments := fun _ _ => hmapped _
    submission := fun _ _ => hmapped _ }

/-- A job leads to another one, whose text is known but for what a link says. -/
inductive Job.Names : Job ι → Job ι → Prop
  | item {request : Request ι} {item : ι} {label : String} (h : OneLine label) :
    Names (.request request) (.parseItem item label)
  | links {request : Request ι} {item : ι} {label : String} (h : OneLine label) :
    Names (.request request) (.scanLinks item label)
  | link {item : ι} {label : String} {link : Link} : Names (.scanLinks item label) (.followLink link)
  | linked {link : Link} {item : ι} : Names (.followLink link) (.parseItem item (linkLabel link))
  | table {item : ι} {label : String} {t : Table} (h : OneLine t.description) :
    Names (.parseItem item label) (.rollTable t)
  | expr {t : Table} : Names (.rollTable t) (.evalExpr t.expr)

theorem Run.gives_ask {α : Type} {question : StateM τ α} {Q : α → Prop}
    (h : ∀ asked, Q (question.run asked).1) : Gives (ask question : Run τ σ α) Q :=
  fun (asked, rolled) => ⟨_, _, ask_of_run rfl rolled, h asked⟩

theorem onOneLine_source {message : String} (h : Unbroken message) :
    OnOneLine (.error (.source message)) :=
  Unbroken.append (s := "couldn't fetch content: ") (by decide) h

theorem onOneLine_skippedOutput (total limit : Nat) : OnOneLine (.ok (skippedOutput total limit)) := by
  unfold skippedOutput
  split
  · trivial
  · exact Output.endsLine_text (by simp)

theorem onOneLine_jobResult (roll : Evaluated) : OnOneLine roll.jobResult := by
  unfold Evaluated.jobResult
  split
  · exact Output.endsLine_text (by simp)
  · exact .calcError _

/-- The description of a table in a text is on one line. -/
theorem Table.oneLine_description {s : List Char} {limits : Limits} {t : Table}
    (h : t ∈ allIn s limits) : OneLine t.description := by
  obtain ⟨b, -, hbuilt⟩ := List.mem_filterMap.mp h
  exact (tidy_of_build (toOption_eq_some.mp hbuilt)).description_free.noBreak

/-- A job starts with jobs that it names, and what it comes to by itself takes one line. -/
def Job.StartsNamed (job : Job ι) (jobs : List (Job ι)) (result : Result) : Prop :=
  (∀ j ∈ jobs, job.Names j) ∧ OnOneLine result

theorem Job.StartsNamed.nil {job : Job ι} {result : Result} (h : OnOneLine result) :
    job.StartsNamed [] result :=
  ⟨List.forall_mem_nil _, h⟩

namespace Workshop

variable {w : Workshop ι τ σ}

theorem oneLine_commentLabel (number : Nat) : OneLine (commentLabel number) :=
  OneLine.append (s := "top-level comment #") (by decide) (Unbroken.natRepr number).oneLine

/-- A table finishes with an outcome or with a message that says why its roll has no value. -/
theorem onOneLine_finishTable (h : w.roller.Answers) (t : Table) (roll : Evaluated) :
    Gives (w.finishTable t [w.rolledNode t.expr roll]) OnOneLine := by
  cases hvalue : roll.result with
  | error err =>
    rw [finishTable_of_error hvalue]
    exact .pure (Unbroken.append (s := "the roll failed: ") (by decide) (.calcError err))
  | ok value =>
    rw [finishTable_of_ok hvalue]
    refine (Run.gives_dice (h.resolved t roll)).bind fun r hr => .pure ?_
    cases r with
    | error err =>
      obtain ⟨cause, rfl⟩ := hr
      exact Unbroken.append (s := "table roll failed: ") (by decide) (.calcError cause)
    | ok o => exact Output.endsLine_text (by simp)

variable [DecidableEq ι]

theorem gives_labelled_surroundings (hsource : w.source.Terse) (item : ι) :
    Gives (w.surroundings item) fun (places, result) =>
      (∀ place ∈ places, OneLine place.2) ∧ OnOneLine result := by
  refine Gives.bind (Run.gives_ask (hsource.submission item)) fun answer hanswer => ?_
  rcases answer with message | none | post
  · exact .pure ⟨List.forall_mem_nil _, onOneLine_source (hanswer message rfl)⟩
  · exact .pure ⟨List.forall_mem_nil _, trivial⟩
  · refine Gives.bind (Run.gives_ask (hsource.comments post)) fun answer hanswer => ?_
    have hown : OneLine "the original post" := by decide
    cases answer with
    | error message =>
      exact .pure ⟨List.forall_mem_singleton.mpr hown, onOneLine_source (hanswer message rfl)⟩
    | ok comments =>
      refine .pure ⟨List.forall_mem_cons.mpr ⟨hown, fun place hplace => ?_⟩,
        onOneLine_skippedOutput ..⟩
      obtain ⟨⟨c, i⟩, -, rfl⟩ := List.mem_map.mp hplace
      exact oneLine_commentLabel i

theorem gives_startsNamed (h : w.roller.Answers) (hsource : w.source.Terse) (job : Job ι) :
    Gives (w.start job) fun (jobs, result) => job.StartsNamed jobs result := by
  have hcomment : OneLine "your comment" := by decide
  have hmessage : OneLine "your message" := by decide
  rcases job with (item | item) | ⟨item, label⟩ | ⟨item, label⟩ | link | t | e
  · refine (gives_labelled_surroundings hsource item).bind fun (places, result) hplaces => ?_
    refine .pure ⟨List.forall_mem_cons.mpr ⟨.item hcomment,
      List.forall_mem_cons.mpr ⟨.links hcomment, fun j hj => ?_⟩⟩, hplaces.2⟩
    obtain ⟨place, hplace, rfl⟩ := List.mem_map.mp hj
    exact .item (hplaces.1 place hplace)
  · refine .pure ⟨fun j hj => ?_, trivial⟩
    rcases List.mem_pair.mp hj with rfl | rfl
    · exact .item hmessage
    · exact .links hmessage
  · refine Gives.bind (Run.gives_ask (hsource.content item)) fun answer hanswer => ?_
    cases answer with
    | error message => exact .pure (.nil (onOneLine_source (hanswer message rfl)))
    | ok content =>
      dsimp only
      split
      · exact .pure (.nil (Unbroken.endsLine (by decide)))
      · refine .pure ⟨fun j hj => ?_, trivial⟩
        obtain ⟨t, ht, rfl⟩ := List.mem_map.mp hj
        exact .table (Table.oneLine_description ht)
  · refine Gives.bind (Run.gives_ask (hsource.content item)) fun answer hanswer => ?_
    cases answer with
    | error message => exact .pure (.nil (onOneLine_source (hanswer message rfl)))
    | ok content =>
      dsimp only
      split
      · exact .pure (.nil (Unbroken.endsLine (by decide)))
      · refine .pure ⟨fun j hj => ?_, onOneLine_skippedOutput ..⟩
        obtain ⟨link, -, rfl⟩ := List.mem_map.mp hj
        exact .link
  · refine Gives.bind (Run.gives_ask (hsource.target link.href)) fun answer hanswer => ?_
    rcases answer with message | none | item
    · exact .pure (.nil (onOneLine_source (hanswer message rfl)))
    · exact .pure (.nil (Unbroken.endsLine (by decide)))
    · exact .pure ⟨List.forall_mem_singleton.mpr .linked, trivial⟩
  · exact .pure ⟨List.forall_mem_singleton.mpr .expr, trivial⟩
  · exact Gives.bind (Run.ends_dice (h.eval e)) fun roll _ =>
      .pure (.nil (onOneLine_jobResult roll))

end Workshop

/-! ### Nodes and their lines -/

/-- What came of the job of a node takes one line, and the jobs of its children have names. -/
structure Node.Logs (n : Node ι) : Prop where
  endsLine_summary : EndsLine (summary n.status n.output)
  names : ∀ c ∈ n.children, n.job.Names c.job

namespace Workshop

variable {w : Workshop ι τ σ}

theorem endsLine_summary_close {result : Result} (h : OnOneLine result) (job : Job ι)
    (children : List (Node ι)) :
    let n := w.close job result children
    EndsLine (Node.summary n.status n.output) := by
  rcases result with failure | none | output
  · exact (Unbroken.append (s := "failed: ") (by decide) h).endsLine
  · exact Unbroken.endsLine (s := "done") (by decide)
  · exact h

variable [DecidableEq ι] {job : Job ι} {n : Node ι} {s s' : τ × σ}

/-- A run on a job closes a node that the log has on one line. -/
theorem logs_of_perform (h : w.roller.Answers) (hsource : w.source.Terse)
    (hrun : w.perform job s = some (n, s')) : n.Logs := by
  obtain ⟨jobs, result, started, hstart, children, worked, hchildren, result', hfinish, rfl⟩ :=
    exists_of_perform_eq_some hrun
  obtain ⟨hnames, hresult⟩ := (gives_startsNamed h hsource job).of_eq_some hstart
  have hruns := forall₂_of_mapM_eq_some hchildren
  -- only a table has something left to do after its children, which is one roll of its expression
  have hresult' : OnOneLine result' := by
    cases job with
    | rollTable t =>
      cases hstart
      obtain ⟨child, rest, ⟨before, after, hchild⟩, hrest, rfl⟩ := List.forall₂_cons_left_iff.mp hruns
      obtain rfl := List.forall₂_nil_left_iff.mp hrest
      obtain ⟨roll, rolled, -, hclose⟩ := bind_eq_some.mp hchild
      cases hclose
      exact (onOneLine_finishTable h t roll).of_eq_some hfinish
    | _ =>
      cases hfinish
      exact hresult
  refine ⟨endsLine_summary_close hresult' job children, ?_⟩
  rw [close_job, close_children]
  intro c hc
  obtain ⟨j, hj, before, after, hchild⟩ := exists_mem_of_forall₂ hruns c hc
  rw [job_of_perform hchild]
  exact hnames j hj

/-- The log has every node of a tree on one line but for the text of its job. -/
theorem logs_of_mem (h : w.roller.Answers) (hsource : w.source.Terse)
    (hrun : w.perform job s = some (n, s')) : ∀ m ∈ n.preorder, m.Logs := by
  intro m hm
  obtain ⟨before, after, hrun⟩ := exists_run_of_mem hrun m hm
  exact logs_of_perform h hsource hrun

end Workshop

/-! ### Links on one line -/

/-- The link that a job follows. -/
def Job.link? : Job ι → Option Link
  | .followLink link => some link
  | _ => none

theorem Job.link?_eq_some {job : Job ι} {link : Link} :
    job.link? = some link ↔ job = .followLink link := by
  cases job <;> simp [Job.link?]

namespace Node

/-- A link that the node follows has its address on one line, and its text too if it led to an item. -/
def LinkOnOneLine (n : Node ι) : Prop :=
  ∀ link ∈ n.job.link?, OneLine link.href ∧ (n.children ≠ [] → ∀ text ∈ link.text, OneLine text)

instance (n : Node ι) : Decidable n.LinkOnOneLine :=
  inferInstanceAs (Decidable (∀ link ∈ n.job.link?, _ ∧ (_ → _)))

/-- The links that are followed in a tree are on one line. -/
def LinksOnOneLine (root : Node ι) : Prop := ∀ n ∈ root.preorder, n.LinkOnOneLine

instance (root : Node ι) : Decidable root.LinksOnOneLine := List.decidableBAll _ root.preorder

/-- A node whose link is on one line leads to jobs with a text on one line, if their links are. -/
theorem Logs.oneLine_child {n c : Node ι} (h : n.Logs) (hlink : n.LinkOnOneLine) (hc : c ∈ n.children)
    (hbelow : c.LinkOnOneLine) : OneLine c.job.text := by
  have hnames := h.names c hc
  unfold LinkOnOneLine at hlink hbelow
  generalize n.job = job, c.job = child at hnames hlink hbelow
  cases hnames with
  | item hlabel => exact OneLine.append (s := "look for tables in ") (by decide) hlabel
  | links hlabel => exact OneLine.append (s := "look for links in ") (by decide) hlabel
  | @link _ _ link =>
    exact OneLine.append (s := "follow the link to ") (by decide) (hbelow link rfl).1
  | @linked link item =>
    refine OneLine.append (s := "look for tables in ") (by decide) ?_
    have htext := (hlink link rfl).2 (List.ne_nil_of_mem hc)
    unfold linkLabel
    split
    next text hsome =>
      exact (OneLine.append (s := "a linked post (") (by decide) (htext text hsome)).append (by decide)
    next => decide
  | @table _ _ t hdescription =>
    refine (OneLine.append (s := "roll the ") (by decide) ?_).append (by decide)
    unfold Table.text
    split
    · exact (Unbroken.expr t.expr).oneLine
    · exact ((Unbroken.expr t.expr).oneLine.append (by decide)).append hdescription
  | @expr t => exact OneLine.append (s := "roll ") (by decide) (Unbroken.expr t.expr).oneLine

/-- A node whose job has a text on one line has its link on one line, if its children have theirs. -/
theorem Logs.linkOnOneLine {n : Node ι} (h : n.Logs) (hn : OneLine n.job.text)
    (hchildren : ∀ c ∈ n.children, OneLine c.job.text) : n.LinkOnOneLine := by
  intro link hlink
  have hjob := Job.link?_eq_some.mp hlink
  rw [hjob] at hn
  refine ⟨(oneLine_append_iff.mp hn).2, fun hne text htext => ?_⟩
  obtain ⟨c, hc⟩ := List.exists_mem_of_ne_nil _ hne
  have hnames := h.names c hc
  have hchild := hchildren c hc
  rw [hjob] at hnames
  generalize c.job = job at hnames hchild
  cases hnames with
  | linked =>
    have hlabel := (oneLine_append_iff.mp hchild).2
    rw [linkLabel, Option.mem_def.mp htext] at hlabel
    exact (oneLine_append_iff.mp (oneLine_append_iff.mp hlabel).1).2

/-- The jobs of a tree have their texts on one line just if the links that are followed are. -/
theorem forall_oneLine_text_iff : ∀ root : Node ι, (∀ m ∈ root.preorder, m.Logs) →
    OneLine root.job.text →
      ((∀ m ∈ root.preorder, OneLine m.job.text) ↔ root.LinksOnOneLine) := by
  intro root
  induction root using Node.induct with
  | h n ih =>
    -- whether the text of a child is on one line is up to its own link and the link of its parent
    intro hall hn
    obtain ⟨hlogs, hbelow⟩ := forall_mem_preorder.mp hall
    rw [LinksOnOneLine, forall_mem_preorder, forall_mem_preorder]
    constructor
    · rintro ⟨-, hchildren⟩
      have hself : ∀ c ∈ n.children, OneLine c.job.text := fun c hc =>
        (forall_mem_preorder.mp (hchildren c hc)).1
      exact ⟨hlogs.linkOnOneLine hn hself, fun c hc =>
        (ih c hc (hbelow c hc) (hself c hc)).mp (hchildren c hc)⟩
    · rintro ⟨hlink, hchildren⟩
      refine ⟨hn, fun c hc => (ih c hc (hbelow c hc) ?_).mpr (hchildren c hc)⟩
      exact hlogs.oneLine_child hlink hc (forall_mem_preorder.mp (hchildren c hc)).1

/-! ### The log of a tree -/

/-- A line of the log is indented by twice the depth of its node, and goes on with the text of the job
and with what came of it. -/
structure LoggedAs (n : Node ι) (depth : Nat) (line : List Char) : Prop where
  line_eq : line = List.replicate (2 * depth) ' ' ++
    (n.job.text ++ ": " ++ summary n.status n.output).toList
  indent_eq : indent line = 2 * depth

theorem mem_preorder_of_mem_outline {root : Node ι} {depth : Nat} {p : Nat × Node ι}
    (hp : p ∈ root.outline depth) : p.2 ∈ root.preorder := by
  rw [← map_snd_outline root depth]
  exact List.mem_map_of_mem hp

/-- The only line breaks in a line of the log are those in the text of the job. -/
theorem Logs.breaks_logLine {n : Node ι} (h : n.Logs) (depth : Nat) :
    breaks (n.logLine depth) = breaks n.job.text := by
  have hindentation : OneLine (String.join (List.replicate depth "  ")) := by
    rw [OneLine, toList_indentation]
    exact fun hbreak => absurd (List.eq_of_mem_replicate hbreak) (by decide)
  have hcolon : OneLine ": " := by decide
  rw [logLine, breaks_append, breaks_append, breaks_append, breaks_eq_zero_iff.mpr hindentation,
    breaks_eq_zero_iff.mpr hcolon, breaks_eq_zero_iff.mpr h.endsLine_summary.oneLine,
    Nat.zero_add, Nat.add_zero]

/-- A line of the log ends like a line. -/
theorem Logs.last_logLine {n : Node ι} (h : n.Logs) (depth : Nat) :
    (n.logLine depth).toList ≠ [] ∧ (n.logLine depth).toList.getLast? ≠ some '\n' ∧
      (n.logLine depth).toList.getLast? ≠ some '\r' := by
  have hends : EndsLine (": " ++ summary n.status n.output) := h.endsLine_summary.append (by decide)
  have hne : (": " ++ summary n.status n.output).toList ≠ [] := by
    rw [String.toList_append]
    exact List.append_ne_nil_of_left_ne_nil (by decide) _
  rw [logLine, String.append_assoc, String.toList_append, List.getLast?_append_of_ne_nil _ hne]
  exact ⟨List.append_ne_nil_of_right_ne_nil _ hne,
    fun hbreak => hends.oneLine (List.mem_of_getLast? hbreak), hends.last⟩

theorem Logs.isLine_logLine {n : Node ι} (h : n.Logs) (hn : OneLine n.job.text) (depth : Nat) :
    IsLine (n.logLine depth).toList where
  noBreak := breaks_eq_zero_iff.mp ((h.breaks_logLine depth).trans (breaks_eq_zero_iff.mpr hn))
  ne_nil := (h.last_logLine depth).1
  last := (h.last_logLine depth).2.2

variable {root : Node ι}

/-- The log has one line for each node, and one more for each line break in the text of a job. -/
theorem length_lines_tree (h : ∀ m ∈ root.preorder, m.Logs) : (lines root.tree.toList).length =
    root.count + (root.preorder.map fun m => breaks m.job.text).sum := by
  have hne : root.outline 0 ≠ [] := by
    cases root
    rw [outline]
    exact List.cons_ne_nil _ _
  have hbreaks : ((root.outline 0).map fun (depth, n) => (n.logLine depth).toList).map
      (·.count '\n') = root.preorder.map fun m => breaks m.job.text := by
    rw [← map_snd_outline root 0, List.map_map, List.map_map]
    exact List.map_congr_left fun p hp => (h p.2 (mem_preorder_of_mem_outline hp)).breaks_logLine p.1
  rw [toList_tree, length_lines_joinLines (by simpa using hne), hbreaks, List.length_map,
    ← List.length_map Prod.snd, map_snd_outline, length_preorder, Nat.add_comm]
  intro l hl
  obtain ⟨p, hp, rfl⟩ := List.mem_map.mp hl
  have hlast := (h p.2 (mem_preorder_of_mem_outline hp)).last_logLine p.1
  exact ⟨hlast.1, hlast.2.1⟩

/-- The log has exactly one line for each node just if the text of every job is on one line. -/
theorem length_lines_tree_eq_iff (h : ∀ m ∈ root.preorder, m.Logs) :
    (lines root.tree.toList).length = root.count ↔ ∀ m ∈ root.preorder, OneLine m.job.text := by
  rw [length_lines_tree h, Nat.add_eq_left, List.sum_eq_zero_iff]
  simp only [List.forall_mem_map, breaks_eq_zero_iff]

/-- The lines of the log are those of the nodes. -/
theorem forall₂_loggedAs (h : ∀ m ∈ root.preorder, m.Logs)
    (htexts : ∀ m ∈ root.preorder, OneLine m.job.text) :
    List.Forall₂ (fun (depth, m) line => m.LoggedAs depth line) (root.outline 0)
      (lines root.tree.toList) := by
  rw [toList_tree, lines_joinLines]
  · rw [List.forall₂_map_right_iff, List.forall₂_same]
    exact fun p _ => ⟨p.2.toList_logLine p.1, p.2.indent_logLine p.1⟩
  · intro l hl
    obtain ⟨p, hp, rfl⟩ := List.mem_map.mp hl
    have hmem := mem_preorder_of_mem_outline hp
    exact (h p.2 hmem).isLine_logLine (htexts p.2 hmem) p.1

end Node

/-- The log of a request has one line for each node of its tree, and one more for each line break in
the text of a job. It has exactly one for each just if the links that were followed are on one line,
each with its address, and with its text if it led to an item; then the lines are those of the nodes in
preorder, each indented by twice the depth of its node. -/
theorem log_lines_of_answer (config : Config) {roller : Roller σ} (h : roller.Answers)
    (request : Request Nat) (memory : Memory) (rolled : σ) :
    ∃ root after, (Workshop.mk config Memory.source roller).answer request (memory, rolled) =
        some (root, after) ∧
      (lines root.tree.toList).length =
        root.count + (root.preorder.map fun m => breaks m.job.text).sum ∧
      ((lines root.tree.toList).length = root.count ↔ root.LinksOnOneLine) ∧
      (root.LinksOnOneLine → (root.outline 0).map Prod.snd = root.preorder ∧
        List.Forall₂ (fun (depth, m) line => m.LoggedAs depth line) (root.outline 0)
          (lines root.tree.toList)) := by
  let w : Workshop Nat Memory σ := Workshop.mk config Memory.source roller
  obtain ⟨root, after, hanswer, -⟩ := Workshop.ends_answer (w := w) h request (memory, rolled)
  have hrun : w.perform (.request request) (memory, rolled) = some (root, after) := hanswer
  have hlogs := Workshop.logs_of_mem h Memory.terse_source hrun
  have hroot : OneLine root.job.text := by
    rw [Workshop.job_of_perform hrun]
    exact request.oneLine_text
  have htexts := Node.forall_oneLine_text_iff root hlogs hroot
  exact ⟨root, after, hanswer, Node.length_lines_tree hlogs,
    (Node.length_lines_tree_eq_iff hlogs).trans htexts,
    fun hlinks => ⟨root.map_snd_outline 0, Node.forall₂_loggedAs hlogs (htexts.mpr hlinks)⟩⟩

/-- A link on one line leads to a table: there is a line for each of the seven nodes. -/
theorem log_of_link_on_one_line :
    let memory : Memory := { items := [
      { content := { text := "Roll [my tables](https://example.com/a)" } },
      { content := { text := "d2 Coin\n1. Heads\n2. Tails" }, url := some "https://example.com/a" }] }
    let w : Workshop Nat Memory Unit := Workshop.mk {} Memory.source (.fixed 1)
    ∃ root after, w.answer (.message 0) (memory, ()) = some (root, after) ∧ root.count = 7 ∧
      root.LinksOnOneLine ∧ (lines root.tree.toList).length = 7 := by
  intro memory w
  obtain ⟨root, after, hanswer, -, hiff, -⟩ :=
    log_lines_of_answer {} (Roller.answers_fixed 1) (.message 0) memory ()
  have hfacts : (w.answer (.message 0) (memory, ())).any (fun (root, _) =>
      root.count = 7 ∧ root.LinksOnOneLine) = true := by decide +kernel
  rw [hanswer, Option.any_some] at hfacts
  obtain ⟨hcount, hlinks⟩ := of_decide_eq_true hfacts
  exact ⟨root, after, hanswer, hcount, hlinks, (hiff.mpr hlinks).trans hcount⟩

/-- A link whose text takes two lines leads to a table: its seven nodes take eight lines. -/
theorem link_over_two_lines_adds_line :
    let memory : Memory := { items := [
      { content := { text := "Roll [my\ntables](https://example.com/a)" } },
      { content := { text := "d2 Coin\n1. Heads\n2. Tails" }, url := some "https://example.com/a" }] }
    let w : Workshop Nat Memory Unit := Workshop.mk {} Memory.source (.fixed 1)
    ∃ root after, w.answer (.message 0) (memory, ()) = some (root, after) ∧ root.count = 7 ∧
      (lines root.tree.toList).length = 8 := by
  intro memory w
  have hanswers : w.roller.Answers := Roller.answers_fixed 1
  obtain ⟨root, after, hanswer, -⟩ := Workshop.ends_answer hanswers (.message 0) (memory, ())
  have hfacts : (w.answer (.message 0) (memory, ())).any (fun (root, _) => root.count = 7 ∧
      (root.preorder.map fun m => breaks m.job.text).sum = 1) = true := by decide +kernel
  rw [hanswer, Option.any_some] at hfacts
  obtain ⟨hcount, hbreaks⟩ := of_decide_eq_true hfacts
  have hrun : w.perform (.request (.message 0)) (memory, ()) = some (root, after) := hanswer
  have hlogs := Workshop.logs_of_mem hanswers Memory.terse_source hrun
  refine ⟨root, after, hanswer, hcount, ?_⟩
  rw [Node.length_lines_tree hlogs, hcount, hbreaks]

end DiceTables
