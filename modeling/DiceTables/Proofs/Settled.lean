import DiceTables.Proofs.Pieces
import DiceTables.Proofs.Walk

/-!
Trees of work that is done. Whatever the source says and whichever jobs fail, the work on a job ends
with a tree in which nothing is pending, every job stands below one that may lead to it, and the roll
of a table is that of the expression below it. Doing the work again changes nothing.

One step of the walk establishes this for the node that it closes (`closed_finish`), and the walk
goes down the levels of the jobs, which is the induction.
-/

namespace DiceTables

variable {ι τ σ : Type}

namespace Node

/-! ### Levels -/

theorem induct {P : Node ι → Prop} (h : ∀ n, (∀ c ∈ n.children, P c) → P n) : ∀ n, P n
  | ⟨job, status, output, report, children⟩ => h _ fun c _ => induct h c

mutual

/-- Number of levels of a tree. -/
def levels : Node ι → Nat
  | ⟨_, _, _, _, children⟩ => 1 + levelsAll children

/-- Number of levels of the highest of several trees. -/
def levelsAll : List (Node ι) → Nat
  | [] => 0
  | n :: more => max n.levels (levelsAll more)

end

theorem levelsAll_le {k : Nat} : ∀ {l : List (Node ι)}, (∀ n ∈ l, n.levels ≤ k) → levelsAll l ≤ k
  | [], _ => by simp [levelsAll]
  | n :: more, h => by
    obtain ⟨hn, hmore⟩ := List.forall_mem_cons.mp h
    have ih := levelsAll_le hmore
    rw [levelsAll]
    omega

theorem levels_eq (n : Node ι) : n.levels = 1 + levelsAll n.children := by
  cases n
  rw [levels]

theorem forall_mem_preorder {P : Node ι → Prop} {n : Node ι} :
    (∀ m ∈ n.preorder, P m) ↔ P n ∧ ∀ c ∈ n.children, ∀ m ∈ c.preorder, P m := by
  rw [preorder_eq, List.forall_mem_cons]
  simp only [List.mem_flatMap]
  constructor
  · rintro ⟨hn, hbelow⟩
    exact ⟨hn, fun c hc m hm => hbelow m ⟨c, hc, hm⟩⟩
  · rintro ⟨hn, hbelow⟩
    exact ⟨hn, fun m ⟨c, hc, hm⟩ => hbelow c hc m hm⟩

/-! ### Nodes of which the work is done -/

/-- The node of a table has one child, which rolls its expression. The node is done exactly if it has
an outcome, which then is one of the roll that the child has made. -/
structure RollsTable (n : Node ι) (t : Table) (child : Node ι) : Prop where
  children_eq : n.children = [child]
  job_eq : child.job = .evalExpr t.expr
  done_iff : n.status = .done ↔ ∃ o, n.output = some (.outcome o)
  rolled : ∀ o, n.output = some (.outcome o) →
    child.status = .done ∧ child.output = some (.roll o.top.roll o.top.value)

/-- What holds of every node of a tree once the work on it is done. -/
structure Settled (n : Node ι) : Prop where
  executed : n.status ≠ .pending
  leadsTo : ∀ c ∈ n.children, n.job.LeadsTo c.job
  /-- A link leads to one item at most. -/
  link : ∀ link, n.job = .followLink link → n.children.length ≤ 1
  table : ∀ t, n.job = .rollTable t → ∃ child, n.RollsTable t child
  /-- The expression of a table is always rolled. -/
  rolled : ∀ name, n.status ≠ .failed (Failure.missingValue name).message

/-- The levels of the jobs bound the levels of a tree. -/
theorem levels_le : ∀ n : Node ι, (∀ m ∈ n.preorder, m.Settled) → n.levels ≤ n.job.levels := by
  intro n
  induction n using induct with
  | h n ih =>
    intro hall
    obtain ⟨hn, hbelow⟩ := forall_mem_preorder.mp hall
    have hchildren : levelsAll n.children ≤ n.job.levels - 1 := by
      refine levelsAll_le fun c hc => ?_
      have hlt := (hn.leadsTo c hc).levels_lt
      have hle := ih c hc (hbelow c hc)
      omega
    have hpos := n.job.levels_pos
    rw [levels_eq]
    omega

mutual

theorem isExecuted_iff : ∀ n : Node ι, n.isExecuted = true ↔ ∀ m ∈ n.preorder, m.status ≠ .pending
  | ⟨job, status, output, report, children⟩ => by
    simp [isExecuted, preorder, allExecuted_iff children]

theorem allExecuted_iff : ∀ l : List (Node ι),
    allExecuted l = true ↔ ∀ m ∈ preorderAll l, m.status ≠ .pending
  | [] => by simp [allExecuted, preorderAll]
  | n :: more => by
    simp only [allExecuted, preorderAll, Bool.and_eq_true, isExecuted_iff n, allExecuted_iff more,
      List.forall_mem_append]

end

end Node

/-! ### What failures say -/

namespace Failure

theorem first?_missingValue (name : String) :
    Text.first? (missingValue name).message = some 'n' := by
  have hmessage : (missingValue name).message =
      "no roll was made for the " ++ (name ++ " table") := by
    rw [← String.append_assoc]
    rfl
  rw [hmessage]
  exact Text.first?_append (by decide +kernel) _

/-- The failures that the work on a job can end with say nothing of a roll that was not made. -/
theorem message_ne_of_first? {f : Failure} {c : Char} (h : Text.first? f.message = some c)
    (hc : c ≠ 'n') (name : String) : f.message ≠ (missingValue name).message := by
  intro heq
  rw [heq, first?_missingValue] at h
  exact hc (Option.some_inj.mp h).symm

theorem message_source_ne (message name : String) :
    (source message).message ≠ (missingValue name).message := by
  have hfirst : Text.first? (source message).message = some 'c' :=
    Text.first?_append (s := "couldn't fetch content: ") (by decide +kernel) message
  exact message_ne_of_first? hfirst (by decide) name

theorem message_rollFailed_ne (reason name : String) :
    (rollFailed reason).message ≠ (missingValue name).message := by
  have hfirst : Text.first? (rollFailed reason).message = some 't' :=
    Text.first?_append (s := "the roll failed: ") (by decide +kernel) reason
  exact message_ne_of_first? hfirst (by decide) name

theorem message_noValue_ne (err : CalcError) (name : String) :
    (table (.noValue err)).message ≠ (missingValue name).message := by
  have hfirst : Text.first? (table (.noValue err)).message = some 't' :=
    Text.first?_append (s := "table roll failed: ") (by decide +kernel) err.message
  exact message_ne_of_first? hfirst (by decide) name

theorem message_value_ne (err : CalcError) (name : String) :
    (value err).message ≠ (missingValue name).message := by
  cases err with
  | overflow => exact message_ne_of_first? (c := 'i') (by decide +kernel) (by decide) name
  | divisionByZero => exact message_ne_of_first? (c := 'd') (by decide +kernel) (by decide) name

end Failure

/-! ### Outcomes and the rolls they are of -/

namespace Roller

/-- What comes of a roll: an outcome of just this roll and its value, unless some roll has none. -/
def Resolved (roll : Evaluated) : Except TableError Outcome → Prop
  | .ok o => roll.result = .ok o.top.value ∧ o.top.roll = roll
  | .error err => ∃ cause, err = .noValue cause

theorem Answers.resolved {roller : Roller σ} (h : roller.Answers) (t : Table) (roll : Evaluated) :
    Gives (roller.resolve t roll) (Resolved roll) := by
  cases hresult : roll.result with
  | error err =>
    rw [roller.resolve_of_error hresult]
    exact .pure ⟨err, rfl⟩
  | ok value =>
    rw [roller.resolve_of_ok hresult]
    cases hsub : t.subtable? (t.entryFor value) with
    | none => exact .pure ⟨hresult, rfl⟩
    | some inner =>
      have hroom := Table.room_of_subtable? hsub
      have hinner : Gives (roller.rollTable inner) fun r => ∃ innerRoll, Resolved innerRoll r :=
        Gives.bind (h.eval inner.expr) fun innerRoll _ =>
          (h.resolved inner innerRoll).mono fun r hr => ⟨innerRoll, hr⟩
      refine hinner.bind fun r ⟨innerRoll, hr⟩ => .pure ?_
      cases r with
      | error err => exact hr
      | ok o => exact ⟨hresult, rfl⟩
termination_by t.room

end Roller

theorem Run.gives_dice {α : Type} {rolls : StateT σ Option α} {Q : α → Prop} (h : Gives rolls Q) :
    Gives (dice rolls : Run τ σ α) Q := by
  rintro ⟨asked, rolled⟩
  obtain ⟨a, rolled', hrolls, ha⟩ := h rolled
  exact ⟨a, (asked, rolled'), dice_eq_some.mpr ⟨a, rolled', hrolls, rfl⟩, ha⟩

/-! ### Closing a node -/

namespace Workshop

variable (w : Workshop ι τ σ)

/-- What holds of every node that the work on a job has closed. -/
structure Closed (n : Node ι) : Prop extends n.Settled where
  report_eq : n.report = n.render w.config
  expr : ∀ e, n.job = .evalExpr e → ∃ roll, n = w.rolledNode e roll

variable {w} {job : Job ι} {result : Result} {children : List (Node ι)}

theorem report_close (job : Job ι) (result : Result) (children : List (Node ι)) :
    (w.close job result children).report = (w.close job result children).render w.config := by
  cases result <;> rfl

theorem status_close_ne_pending : (w.close job result children).status ≠ .pending := by
  cases result <;> simp

theorem status_close_ne (h : ∀ f, result = .error f → ∀ name,
    f.message ≠ (Failure.missingValue name).message) (name : String) :
    (w.close job result children).status ≠ .failed (Failure.missingValue name).message := by
  cases result with
  | ok output => simp
  | error f =>
    rw [status_close_error]
    exact fun heq => h f rfl name (Status.failed.inj heq)

/-- Every job but a table and an expression is closed with what it started with. -/
theorem closed_close (hleads : ∀ c ∈ children, job.LeadsTo c.job)
    (hlink : ∀ link, job = .followLink link → children.length ≤ 1)
    (htable : ∀ t, job ≠ .rollTable t) (hexpr : ∀ e, job ≠ .evalExpr e)
    (hfails : FailsAsking result) : w.Closed (w.close job result children) where
  executed := status_close_ne_pending
  leadsTo := by simpa using hleads
  link := by simpa using hlink
  table t h := absurd (by simpa using h) (htable t)
  rolled := by
    refine status_close_ne fun f hf name => ?_
    obtain ⟨message, rfl⟩ := hfails f hf
    exact Failure.message_source_ne message name
  report_eq := report_close job result children
  expr e h := absurd (by simpa using h) (hexpr e)

theorem closed_rolledNode (e : Expr) (roll : Evaluated) : w.Closed (w.rolledNode e roll) where
  executed := status_close_ne_pending
  leadsTo := by simp [rolledNode]
  link := by simp [rolledNode]
  table := by simp [rolledNode]
  rolled := by
    refine status_close_ne fun f hf name => ?_
    cases hresult : roll.result with
    | ok value =>
      rw [hresult] at hf
      cases hf
    | error err =>
      rw [hresult] at hf
      cases hf
      exact Failure.message_value_ne err name
  report_eq := report_close ..
  expr e' h := by
    obtain rfl : e = e' := by simpa [rolledNode] using h
    exact ⟨roll, rfl⟩

theorem closed_table {t : Table} {child : Node ι}
    (hrolls : (w.close (.rollTable t) result [child]).RollsTable t child)
    (hfails : ∀ f, result = .error f → ∀ name, f.message ≠ (Failure.missingValue name).message) :
    w.Closed (w.close (.rollTable t) result [child]) where
  executed := status_close_ne_pending
  leadsTo := by
    intro c hc
    obtain rfl : c = child := by simpa using hc
    rw [hrolls.job_eq, close_job]
    exact .expr
  link := by simp
  table t' h := by
    obtain rfl : t = t' := by simpa using h
    exact ⟨child, hrolls⟩
  rolled := status_close_ne hfails
  report_eq := report_close ..
  expr := by simp

theorem rollsTable_of_error (t : Table) (roll : Evaluated) (f : Failure) :
    (w.close (.rollTable t) (.error f) [w.rolledNode t.expr roll]).RollsTable t
      (w.rolledNode t.expr roll) where
  children_eq := close_children ..
  job_eq := close_job ..
  done_iff := by simp
  rolled := by simp

theorem rollsTable_of_ok {t : Table} {roll : Evaluated} {o : Outcome}
    (hvalue : roll.result = .ok o.top.value) (hroll : o.top.roll = roll) :
    (w.close (.rollTable t) (.ok (some (.outcome o))) [w.rolledNode t.expr roll]).RollsTable t
      (w.rolledNode t.expr roll) where
  children_eq := close_children ..
  job_eq := close_job ..
  done_iff := by simp
  rolled o' ho := by
    obtain rfl : o = o' := by simpa using ho
    simp [rolledNode, hvalue, hroll]

/-- A table is closed as its roll is resolved: with an outcome of this roll, or as a failure. -/
theorem closed_finishTable (h : w.roller.Answers) (t : Table) (roll : Evaluated) :
    Gives (w.finishTable t [w.rolledNode t.expr roll]) fun result =>
      w.Closed (w.close (.rollTable t) result [w.rolledNode t.expr roll]) := by
  cases hvalue : roll.result with
  | error err =>
    rw [finishTable_of_error hvalue]
    refine .pure (closed_table (rollsTable_of_error ..) fun f hf name => ?_)
    cases hf
    exact Failure.message_rollFailed_ne err.message name
  | ok value =>
    rw [finishTable_of_ok hvalue]
    refine (Run.gives_dice (h.resolved t roll)).bind fun r hr => .pure ?_
    cases r with
    | error err =>
      obtain ⟨cause, rfl⟩ := hr
      refine closed_table (rollsTable_of_error ..) fun f hf name => ?_
      cases hf
      exact Failure.message_noValue_ne cause name
    | ok o =>
      obtain ⟨ho, hroll⟩ := hr
      refine closed_table (rollsTable_of_ok ho hroll) fun f hf => ?_
      cases hf

/-! ### The whole walk -/

/-- One step of the walk closes its node as it should, if those of its children are closed so. -/
theorem closed_finish (h : w.roller.Answers) {jobs : List (Job ι)} (hstart : job.Starts jobs result)
    (hjobs : List.Forall₂ (fun j c => c.job = j) jobs children)
    (hclosed : ∀ c ∈ children, w.Closed c) :
    Gives (w.finish job result children) fun result => w.Closed (w.close job result children) := by
  have hleads : ∀ c ∈ children, job.LeadsTo c.job := by
    intro c hc
    obtain ⟨j, hj, hcj⟩ := exists_mem_of_forall₂ hjobs c hc
    exact hcj ▸ hstart.leadsTo j hj
  cases hstart with
  | request _ hfails => exact .pure (closed_close hleads (by simp) (by simp) (by simp) hfails)
  | item _ hfails => exact .pure (closed_close hleads (by simp) (by simp) (by simp) hfails)
  | links _ hfails => exact .pure (closed_close hleads (by simp) (by simp) (by simp) hfails)
  | notFollowed hfails =>
    have hlen := hjobs.length_eq
    exact .pure (closed_close hleads (by simp [← hlen]) (by simp) (by simp) hfails)
  | followed =>
    have hlen := hjobs.length_eq
    exact .pure (closed_close hleads (by simp [← hlen]) (by simp) (by simp) (failsAsking_ok none))
  | @table t =>
    obtain ⟨child, rest, hchild, hrest, rfl⟩ := List.forall₂_cons_left_iff.mp hjobs
    obtain rfl := List.forall₂_nil_left_iff.mp hrest
    obtain ⟨roll, rfl⟩ := (hclosed child (by simp)).expr t.expr hchild
    exact closed_finishTable h t roll
  | @expr e roll =>
    obtain rfl := List.forall₂_nil_left_iff.mp hjobs
    exact .pure (closed_rolledNode e roll)

variable [DecidableEq ι]

/-- Doing a job closes every node of its tree as it should. -/
theorem closed_perform (h : w.roller.Answers) : ∀ job : Job ι,
    Gives (w.perform job) fun n => n.job = job ∧ ∀ m ∈ n.preorder, w.Closed m := by
  intro job
  induction hlevels : job.levels using Nat.strong_induction_on generalizing job with
  | h k ih =>
    rw [perform_eq]
    refine (gives_start h job).bind fun (jobs, result) hstart => ?_
    have hchildren : Gives (jobs.mapM w.perform)
        (List.Forall₂ (fun j c => c.job = j ∧ ∀ m ∈ c.preorder, w.Closed m) jobs) := by
      refine Gives.mapM_of_mem fun j hj => ?_
      have hlt := (hstart.leadsTo j hj).levels_lt
      exact ih j.levels (hlevels ▸ hlt) j rfl
    refine hchildren.bind fun children hall => ?_
    have hbelow : ∀ c ∈ children, ∀ m ∈ c.preorder, w.Closed m := by
      intro c hc
      obtain ⟨j, -, -, hcj⟩ := exists_mem_of_forall₂ hall c hc
      exact hcj
    have hself : ∀ c ∈ children, w.Closed c := fun c hc =>
      (Node.forall_mem_preorder.mp (hbelow c hc)).1
    refine (closed_finish h hstart (hall.imp fun _ _ hjc => hjc.1) hself).bind fun result hn => ?_
    refine .pure ⟨close_job .., Node.forall_mem_preorder.mpr ⟨hn, ?_⟩⟩
    rw [close_children]
    exact hbelow

/-- Whatever the source says, the work on a job ends with a tree of at most six levels in which every
job is done or has failed, and doing the work again changes nothing, asks nothing and rolls nothing. -/
theorem resolve_settles (w : Workshop ι τ σ) (h : w.roller.Answers) (job : Job ι) :
    Gives (w.resolve { job }) fun n => n.job = job ∧ n.isExecuted = true ∧
      (∀ m ∈ n.preorder, m.Settled) ∧ n.levels ≤ 6 ∧ ∀ s, w.resolve n s = some (n, s) := by
  refine (closed_perform h job).mono fun n ⟨hjob, hclosed⟩ => ?_
  have hsettled : ∀ m ∈ n.preorder, m.Settled := fun m hm => (hclosed m hm).toSettled
  have hlevels : n.levels ≤ n.job.levels := Node.levels_le n hsettled
  have hdone : n.status ≠ .pending := (Node.forall_mem_preorder.mp hsettled).1.executed
  refine ⟨hjob, ?_, hsettled, hlevels.trans n.job.levels_le_six, fun s => ?_⟩
  · exact (Node.isExecuted_iff n).mpr fun m hm => (hsettled m hm).executed
  · cases hstatus : n.status with
    | pending => exact absurd hstatus hdone
    | done =>
      rw [resolve, hstatus]
      exact pure_apply n s
    | failed reason =>
      rw [resolve, hstatus]
      exact pure_apply n s

/-- A comment links to a table while the comments on its post cannot be listed: the request fails, and
the table is rolled six levels down. -/
theorem resolve_during_outage :
    let memory : Memory := { items := [
      { content := { text := "What happens next?" } },
      { content := { text := "Maybe https://example.com/fate" }, parent := some 0 },
      { content := { text := "d2 Fate\n1. Luck\n2. Loss" }, url := some "https://example.com/fate" }] }
    let source := Memory.source.during { comments := true } "the server is down"
    let w : Workshop Nat Memory Unit := Workshop.mk {} source (.fixed 1)
    w.roller.Answers ∧ ∃ n, w.resolve { job := .request (.mention 1) } (memory, ()) =
        some (n, memory, ()) ∧
      n.status = .failed "couldn't fetch content: the server is down" ∧ n.levels = 6 ∧
      n.isExecuted = true ∧ (∀ m ∈ n.preorder, m.Settled) ∧ ∀ s, w.resolve n s = some (n, s) := by
  intro memory source w
  have hanswers : w.roller.Answers := Roller.answers_fixed 1
  refine ⟨hanswers, ?_⟩
  have hfacts : (w.resolve { job := .request (.mention 1) } (memory, ())).any (fun r =>
      r.2 = (memory, ()) ∧ r.1.levels = 6 ∧
        r.1.status = .failed "couldn't fetch content: the server is down") = true := by
    decide +kernel
  obtain ⟨n, s, hrun, -, hexecuted, hsettled, -, hagain⟩ :=
    resolve_settles w hanswers (.request (.mention 1)) (memory, ())
  rw [hrun, Option.any_some] at hfacts
  obtain ⟨rfl, hlevels, hstatus⟩ := of_decide_eq_true hfacts
  exact ⟨n, hrun, hstatus, hlevels, hexecuted, hsettled, hagain⟩

end Workshop

end DiceTables
