import DiceTables.Proofs.Replay

/-!
The work as one walk. Whatever its kind, a job first does its own part, which settles the jobs it
leads to; each of those is done in the same way, in order; then the job is finished and its node is
closed. A job leads only to jobs of a lower level, so the walk ends at the expressions of tables.

What a job's own part can come to is said once, in `Job.Starts`; statements about whole trees follow
from that and from what closing a node does to the trees of its children.
-/

namespace DiceTables

variable {ι τ σ : Type}

/-! ### Kinds of jobs -/

namespace Job

/-- A job may lead to another one: a request to items and their links, links to items, an item to
its tables and a table to its expression. -/
inductive LeadsTo : Job ι → Job ι → Prop
  | item {request : Request ι} {item : ι} {label : String} :
    LeadsTo (.request request) (.parseItem item label)
  | links {request : Request ι} {item : ι} {label : String} :
    LeadsTo (.request request) (.scanLinks item label)
  | link {item : ι} {label : String} {link : Link} : LeadsTo (.scanLinks item label) (.followLink link)
  | linked {link : Link} {item : ι} {label : String} :
    LeadsTo (.followLink link) (.parseItem item label)
  | table {item : ι} {label : String} {t : Table} : LeadsTo (.parseItem item label) (.rollTable t)
  | expr {t : Table} : LeadsTo (.rollTable t) (.evalExpr t.expr)

/-- Most levels of a tree for a job: one more than for the jobs it may lead to. -/
def levels : Job ι → Nat
  | .evalExpr _ => 1
  | .rollTable _ => 2
  | .parseItem _ _ => 3
  | .followLink _ => 4
  | .scanLinks _ _ => 5
  | .request _ => 6

theorem levels_pos (job : Job ι) : 0 < job.levels := by
  cases job <;> simp [levels]

theorem levels_le_six (job : Job ι) : job.levels ≤ 6 := by
  cases job <;> simp [levels]

theorem LeadsTo.levels_lt {job job' : Job ι} (h : job.LeadsTo job') : job'.levels < job.levels := by
  cases h <;> simp [levels]

end Job

/-! ### One step of the walk -/

/-- The output of a job that has rolled an expression, or why it has failed. -/
def Evaluated.jobResult (roll : Evaluated) : Result :=
  match roll.result with
  | .ok value => .ok (some (.roll roll value))
  | .error err => .error (.value err)

namespace Workshop

variable (w : Workshop ι τ σ)

/-- What a job finishes with when the jobs it leads to are done. Only a table has anything left to
do: its roll selects an outcome. -/
def finish (job : Job ι) (result : Result) (children : List (Node ι)) : Run τ σ Result :=
  match job with
  | .rollTable table => w.finishTable table children
  | _ => pure result

variable [DecidableEq ι]

/-- A job's own part: the jobs it leads to, and what it comes to apart from them. -/
def start : Job ι → Run τ σ (List (Job ι) × Result)
  | .request (.message item) =>
    return ([.parseItem item "your message", .scanLinks item "your message"], .ok none)
  | .request (.mention item) => do
    let (places, result) ← w.surroundings item
    return (.parseItem item "your comment" :: .scanLinks item "your comment" ::
      places.map fun (place, label) => .parseItem place label, result)
  | .parseItem item _ => do
    match ← Run.ask (w.source.content item) with
    | .error message => return ([], .error (.source message))
    | .ok content =>
      match Table.allIn content.text.toList w.config.limits with
      | [] => return ([], .ok (some (.note noTables)))
      | tables => return (tables.map .rollTable, .ok none)
  | .scanLinks item _ => do
    match ← Run.ask (w.source.content item) with
    | .error message => return ([], .error (.source message))
    | .ok content =>
      match content.links with
      | [] => return ([], .ok (some (.note noLinks)))
      | links =>
        let limit := w.config.limits.maxFanOut
        return ((links.take limit).map .followLink, .ok (skippedOutput links.length limit))
  | .followLink link => do
    match ← Run.ask (w.source.target link.href) with
    | .error message => return ([], .error (.source message))
    | .ok none => return ([], .ok (some (.note refusal)))
    | .ok (some item) => return ([.parseItem item (linkLabel link)], .ok none)
  | .rollTable table => return ([.evalExpr table.expr], .ok none)
  | .evalExpr expr => do
    let roll ← Run.dice (w.roller.eval expr)
    return ([], roll.jobResult)

/-- Doing a job is one step of the walk, and the same again for each job it leads to. -/
theorem perform_eq (job : Job ι) :
    w.perform job = do
      let (jobs, result) ← w.start job
      let children ← jobs.mapM w.perform
      let result ← w.finish job result children
      return w.close job result children := by
  cases job with
  | request r =>
    cases r with
    | message item =>
      simp only [perform, answer, start, finish, pure_bind, List.mapM_cons, List.mapM_nil, bind_assoc]
    | mention item =>
      simp only [perform, answer, start, finish, bind_assoc]
      refine bind_congr fun (places, result) => ?_
      simp only [pure_bind, List.mapM_cons, List.mapM_map, bind_assoc]
      rfl
  | parseItem item label =>
    simp only [perform, parseItem, start, finish, bind_assoc]
    refine bind_congr fun answer => ?_
    cases answer with
    | error message => simp only [pure_bind, List.mapM_nil]
    | ok content =>
      dsimp only
      cases Table.allIn content.text.toList w.config.limits with
      | nil => simp only [pure_bind, List.mapM_nil]
      | cons t more =>
        simp only [pure_bind, List.mapM_map]
        rfl
  | scanLinks item label =>
    simp only [perform, scanLinks, start, finish, bind_assoc]
    refine bind_congr fun answer => ?_
    cases answer with
    | error message => simp only [pure_bind, List.mapM_nil]
    | ok content =>
      dsimp only
      cases content.links with
      | nil => simp only [pure_bind, List.mapM_nil]
      | cons link more =>
        simp only [pure_bind, List.mapM_map]
        rfl
  | followLink link =>
    simp only [perform, followLink, start, finish, bind_assoc]
    refine bind_congr fun answer => ?_
    rcases answer with message | none | item
    · simp only [pure_bind, List.mapM_nil]
    · simp only [pure_bind, List.mapM_nil]
    · simp only [pure_bind, List.mapM_cons, List.mapM_nil, bind_assoc]
      rfl
  | rollTable table =>
    simp only [perform, rollTable, start, finish, pure_bind, List.mapM_cons, List.mapM_nil, bind_assoc]
  | evalExpr expr =>
    simp only [perform, evaluate, start, finish, bind_assoc, pure_bind, List.mapM_nil]
    rfl

end Workshop

/-! ### What a job's own part can come to -/

/-- If the job has failed, then because the source did not answer. -/
def FailsAsking (result : Result) : Prop := ∀ f, result = .error f → ∃ message, f = .source message

theorem failsAsking_ok (output : Option Output) : FailsAsking (.ok output) := by
  intro f hf
  cases hf

theorem failsAsking_source (message : String) : FailsAsking (.error (.source message)) := by
  intro f hf
  cases hf
  exact ⟨message, rfl⟩

/-- The jobs that a job may start with, and what it may come to apart from them. -/
inductive Job.Starts : Job ι → List (Job ι) → Result → Prop
  | request {r : Request ι} {jobs : List (Job ι)} {result : Result}
    (leadsTo : ∀ j ∈ jobs, (Job.request r).LeadsTo j) (fails : FailsAsking result) :
    Starts (.request r) jobs result
  | item {item : ι} {label : String} {result : Result} (tables : List Table)
    (fails : FailsAsking result) : Starts (.parseItem item label) (tables.map .rollTable) result
  | links {item : ι} {label : String} {result : Result} (links : List Link)
    (fails : FailsAsking result) : Starts (.scanLinks item label) (links.map .followLink) result
  | notFollowed {link : Link} {result : Result} (fails : FailsAsking result) :
    Starts (.followLink link) [] result
  | followed {link : Link} {item : ι} {label : String} :
    Starts (.followLink link) [.parseItem item label] (.ok none)
  | table {t : Table} : Starts (.rollTable t) [.evalExpr t.expr] (.ok none)
  | expr {e : Expr} (roll : Evaluated) : Starts (.evalExpr e) [] roll.jobResult

theorem Job.Starts.leadsTo {job : Job ι} {jobs : List (Job ι)} {result : Result}
    (h : job.Starts jobs result) : ∀ j ∈ jobs, job.LeadsTo j := by
  intro j hj
  cases h with
  | request leadsTo _ => exact leadsTo j hj
  | item tables _ =>
    obtain ⟨t, -, rfl⟩ := List.mem_map.mp hj
    exact .table
  | links links _ =>
    obtain ⟨link, -, rfl⟩ := List.mem_map.mp hj
    exact .link
  | notFollowed _ => cases hj
  | followed =>
    obtain rfl := List.mem_singleton.mp hj
    exact .linked
  | table =>
    obtain rfl := List.mem_singleton.mp hj
    exact .expr
  | expr roll => cases hj

namespace Workshop

variable {w : Workshop ι τ σ} [DecidableEq ι]

theorem gives_surroundings (item : ι) :
    Gives (w.surroundings item) fun (_, result) => FailsAsking result := by
  refine Gives.bind (Run.ends_ask _) fun answer _ => ?_
  rcases answer with message | none | post
  · exact .pure (failsAsking_source message)
  · exact .pure (failsAsking_ok none)
  · refine Gives.bind (Run.ends_ask _) fun answer _ => ?_
    cases answer with
    | error message => exact .pure (failsAsking_source message)
    | ok comments => exact .pure (failsAsking_ok _)

theorem gives_start (h : w.roller.Answers) (job : Job ι) :
    Gives (w.start job) fun (jobs, result) => job.Starts jobs result := by
  rcases job with (item | item) | ⟨item, label⟩ | ⟨item, label⟩ | link | t | e
  · refine (gives_surroundings item).bind fun (places, result) hresult => .pure (.request ?_ hresult)
    intro j hj
    rcases List.mem_cons.mp hj with rfl | hj
    · exact .item
    · rcases List.mem_cons.mp hj with rfl | hj
      · exact .links
      · obtain ⟨place, -, rfl⟩ := List.mem_map.mp hj
        exact .item
  · refine .pure (.request ?_ (failsAsking_ok none))
    intro j hj
    rcases List.mem_pair.mp hj with rfl | rfl
    · exact .item
    · exact .links
  · refine Gives.bind (Run.ends_ask _) fun answer _ => ?_
    cases answer with
    | error message => exact .pure (.item [] (failsAsking_source message))
    | ok content =>
      dsimp only
      split
      · exact .pure (.item [] (failsAsking_ok _))
      · exact .pure (.item _ (failsAsking_ok none))
  · refine Gives.bind (Run.ends_ask _) fun answer _ => ?_
    cases answer with
    | error message => exact .pure (.links [] (failsAsking_source message))
    | ok content =>
      dsimp only
      split
      · exact .pure (.links [] (failsAsking_ok _))
      · exact .pure (.links _ (failsAsking_ok _))
  · refine Gives.bind (Run.ends_ask _) fun answer _ => ?_
    rcases answer with message | none | item
    · exact .pure (.notFollowed (failsAsking_source message))
    · exact .pure (.notFollowed (failsAsking_ok _))
    · exact .pure .followed
  · exact .pure .table
  · exact Gives.bind (Run.ends_dice (h.eval e)) fun roll _ => .pure (.expr roll)

end Workshop

end DiceTables
