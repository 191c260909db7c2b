import DiceTables.Proofs.Settled

/-!
Fanning out up to a limit. A mention leads to the comments on its post, a scan to the links of its
item: each goes as far as the limit on one step allows, in order, and its node says how many are left
out. So what is followed and what is left out add up to what there is, and the notes at the end of a
report say the same numbers.

The statements are about whatever run there is, also with a roller that runs out later. Every node of
a tree is the result of a run on its own job (`exists_run_of_mem`), so what is known of the runs on one
kind of job is known of every such node.
-/

namespace DiceTables

variable {ι τ σ : Type}

/-! ### Nodes and the runs they come from -/

theorem Run.ask_of_run {α : Type} {question : StateM τ α} {answer : α} {asked after : τ}
    (h : question.run asked = (answer, after)) (rolled : σ) :
    (Run.ask question : Run τ σ α) (asked, rolled) = some (answer, after, rolled) :=
  Run.ask_eq_some.mpr (by rw [h])

namespace Workshop

variable {w : Workshop ι τ σ} {job : Job ι} {n : Node ι} {s s' : τ × σ}

/-- Only tables have anything left to do when the jobs they lead to are done. -/
theorem finish_eq_pure (h : job.table? = none) (result : Result) (children : List (Node ι)) :
    w.finish job result children = pure result := by
  cases job with
  | rollTable t => cases h
  | _ => rfl

variable [DecidableEq ι]

/-- A run on a job goes through its own part, the jobs it leads to, and what is left to do. -/
theorem exists_of_perform_eq_some (h : w.perform job s = some (n, s')) :
    ∃ jobs result started, w.start job s = some ((jobs, result), started) ∧
      ∃ children worked, jobs.mapM w.perform started = some (children, worked) ∧
        ∃ result', w.finish job result children worked = some (result', s') ∧
          n = w.close job result' children := by
  rw [perform_eq] at h
  obtain ⟨⟨jobs, result⟩, started, hstart, h⟩ := bind_eq_some.mp h
  obtain ⟨children, worked, hchildren, h⟩ := bind_eq_some.mp h
  obtain ⟨result', after, hfinish, h⟩ := bind_eq_some.mp h
  cases h
  exact ⟨jobs, result, started, hstart, children, worked, hchildren, result', hfinish, rfl⟩

theorem job_of_perform (h : w.perform job s = some (n, s')) : n.job = job := by
  obtain ⟨-, -, -, -, children, -, -, result, -, rfl⟩ := exists_of_perform_eq_some h
  exact close_job ..

theorem report_of_perform (h : w.perform job s = some (n, s')) : n.report = n.render w.config := by
  obtain ⟨-, -, -, -, children, -, -, result, -, rfl⟩ := exists_of_perform_eq_some h
  exact report_close ..

/-- Each child of a node is the result of a run on its own job. -/
theorem exists_run_of_mem_children (h : w.perform job s = some (n, s')) :
    ∀ c ∈ n.children, ∃ before after, w.perform c.job before = some (c, after) := by
  obtain ⟨jobs, -, started, -, children, worked, hchildren, result, -, rfl⟩ :=
    exists_of_perform_eq_some h
  intro c hc
  rw [close_children] at hc
  obtain ⟨j, -, before, after, hrun⟩ := exists_mem_of_forall₂ (forall₂_of_mapM_eq_some hchildren) c hc
  exact ⟨before, after, by rw [job_of_perform hrun, hrun]⟩

/-- Each node of a tree is the result of a run on its own job. -/
theorem exists_run_of_mem (h : w.perform job s = some (n, s')) :
    ∀ m ∈ n.preorder, ∃ before after, w.perform m.job before = some (m, after) := by
  induction n using Node.induct generalizing job s s' with
  | h n ih =>
    refine Node.forall_mem_preorder.mpr ⟨⟨s, s', by rw [job_of_perform h, h]⟩, fun c hc => ?_⟩
    obtain ⟨before, after, hrun⟩ := exists_run_of_mem_children h c hc
    exact ih c hc hrun

/-- Whatever run there is, no job of its tree is left undone. -/
theorem isExecuted_of_perform (h : w.perform job s = some (n, s')) : n.isExecuted = true := by
  rw [Node.isExecuted_iff]
  intro m hm
  obtain ⟨before, after, hrun⟩ := exists_run_of_mem h m hm
  obtain ⟨-, -, -, -, children, -, -, result, -, hclose⟩ := exists_of_perform_eq_some hrun
  rw [hclose]
  exact status_close_ne_pending

/-- A job other than a table is closed with what it started with, above a node for each job it led
to. -/
theorem exists_close_of_start {jobs : List (Job ι)} {result : Result} {started : τ × σ}
    (hjob : job.table? = none) (hstart : w.start job s = some ((jobs, result), started))
    (h : w.perform job s = some (n, s')) :
    ∃ children, n = w.close job result children ∧ n.children.map Node.job = jobs := by
  obtain ⟨jobs', result', started', hstart', children, worked, hchildren, last, hfinish, rfl⟩ :=
    exists_of_perform_eq_some h
  rw [hstart] at hstart'
  cases hstart'
  rw [finish_eq_pure hjob] at hfinish
  cases hfinish
  refine ⟨children, rfl, ?_⟩
  have hjobs : List.Forall₂ (· = ·) jobs (children.map Node.job) := by
    refine List.forall₂_map_right_iff.mpr ((forall₂_of_mapM_eq_some hchildren).imp ?_)
    rintro j c ⟨before, after, hrun⟩
    exact (job_of_perform hrun).symm
  rw [List.forall₂_eq_eq_eq] at hjobs
  rw [close_children, hjobs]

end Workshop

/-! ### What is left out -/

/-- The node leads to some jobs and then to the first of the things there are, up to the limit; its
output says how many are left out, if any are, so that none are lost. -/
structure Node.FansOut {α : Type} (n : Node ι) (limit : Nat) (before : List (Job ι))
    (jobs : List α → List (Job ι)) (things : List α) : Prop where
  jobs_eq : n.children.map Node.job = before ++ jobs (things.take limit)
  skipped_iff : ∀ k, n.output = some (.skipped k) ↔ k = things.length - limit ∧ 0 < k
  left_eq : Output.skippedCount n.output = things.length - limit
  conserved : n.children.length + Output.skippedCount n.output = before.length + things.length

theorem skippedOutput_eq_some {total limit k : Nat} :
    skippedOutput total limit = some (.skipped k) ↔ k = total - limit ∧ 0 < k := by
  rw [skippedOutput]
  split
  · next hnone => simp [hnone]
  · next hsome =>
    simp only [Option.some.injEq, Output.skipped.injEq]
    omega

theorem skippedCount_eq {output : Option Output} {left : Nat}
    (h : ∀ k, output = some (.skipped k) ↔ k = left ∧ 0 < k) : Output.skippedCount output = left := by
  rcases Nat.eq_zero_or_pos left with hleft | hleft
  · have hnone : ∀ k, output ≠ some (.skipped k) := by
      intro k hk
      have hpos := (h k).mp hk
      omega
    rcases output with _ | (_ | k | _ | _)
    case some.skipped => exact absurd rfl (hnone k)
    all_goals exact hleft.symm
  · rw [(h left).mpr ⟨rfl, hleft⟩]
    rfl

/-- What is followed and what is left out add up to what there is. -/
theorem Node.fansOut_of_skipped_iff {α : Type} {n : Node ι} {limit : Nat} {before : List (Job ι)}
    {jobs : List α → List (Job ι)} {things : List α}
    (hjobs : n.children.map Node.job = before ++ jobs (things.take limit))
    (hlength : ∀ l, (jobs l).length = l.length)
    (hskipped : ∀ k, n.output = some (.skipped k) ↔ k = things.length - limit ∧ 0 < k) :
    n.FansOut limit before jobs things where
  jobs_eq := hjobs
  skipped_iff := hskipped
  left_eq := skippedCount_eq hskipped
  conserved := by
    have hchildren : n.children.length = before.length + min limit things.length := by
      simpa [hlength] using congrArg List.length hjobs
    rw [hchildren, skippedCount_eq hskipped]
    omega

namespace Workshop

/-! ### The jobs of a mention -/

/-- The jobs that a mention of an item leads to whatever the source says. -/
def ownJobs (m : ι) : List (Job ι) := [.parseItem m "your comment", .scanLinks m "your comment"]

/-- The job for the post that a mention was made under. -/
def postJob (post : ι) : Job ι := .parseItem post "the original post"

/-- The jobs for comments on the post, labelled with their numbers from one on. -/
def commentJobs (comments : List ι) : List (Job ι) :=
  (comments.zipIdx 1).map fun (c, i) => .parseItem c (commentLabel i)

/-- The first two children of a mention are for its own item, and only the second is a scan. -/
theorem exists_scan_of_children {m : ι} {root : Node ι} {places : List (ι × String)}
    (h : root.children.map Node.job =
      ownJobs m ++ places.map fun (place, label) => .parseItem place label) :
    ∃ own scan others, root.children = own :: scan :: others ∧
      scan.job = .scanLinks m "your comment" ∧ root.skippedLinks = Output.skippedCount scan.output := by
  obtain ⟨own, more, hroot, hown, hmore⟩ := List.map_eq_cons_iff.mp h
  obtain ⟨scan, others, rfl, hscan, hothers⟩ := List.map_eq_cons_iff.mp hmore
  refine ⟨own, scan, others, hroot, hscan, ?_⟩
  have hplain : others.filter Node.isScan = [] := by
    refine List.filter_eq_nil_iff.mpr fun c hc => ?_
    have hjob : c.job ∈ others.map Node.job := List.mem_map_of_mem hc
    rw [hothers] at hjob
    obtain ⟨place, -, hplace⟩ := List.mem_map.mp hjob
    simp [Node.isScan, ← hplace]
  have hfirst : own.isScan = false := by simp [Node.isScan, hown]
  have hsecond : scan.isScan = true := by simp [Node.isScan, hscan]
  rw [Node.skippedLinks, hroot, List.filter_cons_of_neg (by simp [hfirst]),
    List.filter_cons_of_pos hsecond, hplain]
  simp

variable (w : Workshop ι τ σ)

/-! ### Links -/

/-- What a scan of an item comes to, by what the source says of the item in a state. -/
structure Scans (item : ι) (asked : τ) (n : Node ι) : Prop where
  /-- The links are followed up to the limit. -/
  found : ∀ content after, (w.source.content item).run asked = (.ok content, after) →
    n.status = .done ∧
      n.FansOut w.config.limits.maxFanOut [] (·.map .followLink) content.links
  /-- Without the content there is nothing to follow. -/
  lost : ∀ message after, (w.source.content item).run asked = (.error message, after) →
    n.status = .failed (Failure.source message).message ∧ n.output = none ∧ n.children = []

variable {w} [DecidableEq ι] {asked : τ} {rolled : σ}

theorem start_scanLinks {item : ι} {content : Content} {after : τ}
    (h : (w.source.content item).run asked = (.ok content, after)) (label : String) (rolled : σ) :
    ∃ output, w.start (.scanLinks item label) (asked, rolled) =
        some (((content.links.take w.config.limits.maxFanOut).map .followLink, .ok output),
          after, rolled) ∧
      ∀ k, output = some (.skipped k) ↔
        k = content.links.length - w.config.limits.maxFanOut ∧ 0 < k := by
  have hask := Run.ask_of_run h rolled
  cases hlinks : content.links with
  | nil =>
    refine ⟨some (.note noLinks), bind_eq_some.mpr ⟨_, _, hask, ?_⟩, fun k => ?_⟩
    · simp only [hlinks, List.take_nil, List.map_nil]
      rfl
    · simp
  | cons link more =>
    refine ⟨_, bind_eq_some.mpr ⟨_, _, hask, ?_⟩, fun k => skippedOutput_eq_some⟩
    simp only [hlinks]
    rfl

theorem start_scanLinks_of_error {item : ι} {label message : String} {after : τ}
    (h : (w.source.content item).run asked = (.error message, after)) :
    w.start (.scanLinks item label) (asked, rolled) =
      some (([], .error (.source message)), after, rolled) :=
  bind_eq_some.mpr ⟨_, _, Run.ask_of_run h rolled, rfl⟩

theorem scans_of_scanLinks {item : ι} {label : String} {n : Node ι} {s : τ × σ}
    (h : w.scanLinks item label (asked, rolled) = some (n, s)) : w.Scans item asked n where
  found content after hcontent := by
    obtain ⟨output, hstart, hskipped⟩ := start_scanLinks hcontent label rolled
    obtain ⟨children, rfl, hjobs⟩ := exists_close_of_start rfl hstart h
    exact ⟨status_close_ok .., Node.fansOut_of_skipped_iff hjobs (by simp) hskipped⟩
  lost message after hcontent := by
    obtain ⟨children, rfl, hjobs⟩ := exists_close_of_start rfl (start_scanLinks_of_error hcontent) h
    exact ⟨status_close_error .., output_close_error .., List.map_eq_nil_iff.mp hjobs⟩

/-! ### Comments -/

variable (w)

/-- What a mention of an item comes to, by what the source says in a state. -/
structure LooksAround (m : ι) (asked : τ) (root : Node ι) : Prop where
  /-- The other comments on the post are looked at up to the limit. -/
  listed : ∀ post between comments after,
    (w.source.submission m).run asked = (.ok (some post), between) →
    (w.source.comments post).run between = (.ok comments, after) →
    root.status = .done ∧ root.FansOut w.config.limits.maxFanOut (ownJobs m ++ [postJob post])
      commentJobs (comments.filter (· ≠ m))
  /-- Without a list of the comments only the post is looked at. -/
  notListed : ∀ post between message after,
    (w.source.submission m).run asked = (.ok (some post), between) →
    (w.source.comments post).run between = (.error message, after) →
    root.status = .failed (Failure.source message).message ∧ root.output = none ∧
      root.children.map Node.job = ownJobs m ++ [postJob post]
  /-- Without the post there is nothing but the item itself. -/
  notFound : ∀ message after, (w.source.submission m).run asked = (.error message, after) →
    root.status = .failed (Failure.source message).message ∧ root.output = none ∧
      root.children.map Node.job = ownJobs m
  /-- An item that is a post has nothing around it. -/
  post : ∀ after, (w.source.submission m).run asked = (.ok none, after) →
    root.status = .done ∧ root.output = none ∧ root.children.map Node.job = ownJobs m

variable {w} {m : ι}

theorem start_mention {places : List (ι × String)} {result : Result} {s : τ × σ}
    (h : w.surroundings m (asked, rolled) = some ((places, result), s)) :
    w.start (.request (.mention m)) (asked, rolled) =
      some ((ownJobs m ++ places.map fun (place, label) => .parseItem place label, result), s) :=
  bind_eq_some.mpr ⟨_, _, h, rfl⟩

theorem looksAround_of_answer {root : Node ι} {s : τ × σ}
    (h : w.answer (.mention m) (asked, rolled) = some (root, s)) : w.LooksAround m asked root where
  listed post between comments after hpost hcomments := by
    have hstart := start_mention (w := w) (bind_eq_some.mpr ⟨_, _, Run.ask_of_run hpost rolled,
      bind_eq_some.mpr ⟨_, _, Run.ask_of_run hcomments rolled, rfl⟩⟩)
    obtain ⟨children, rfl, hjobs⟩ := exists_close_of_start rfl hstart h
    refine ⟨status_close_ok .., Node.fansOut_of_skipped_iff ?_ (by simp [commentJobs])
      fun k => skippedOutput_eq_some⟩
    simpa [commentJobs, postJob, Function.comp_def] using hjobs
  notListed post between message after hpost hcomments := by
    have hstart := start_mention (w := w) (bind_eq_some.mpr ⟨_, _, Run.ask_of_run hpost rolled,
      bind_eq_some.mpr ⟨_, _, Run.ask_of_run hcomments rolled, rfl⟩⟩)
    obtain ⟨children, rfl, hjobs⟩ := exists_close_of_start rfl hstart h
    exact ⟨status_close_error .., output_close_error .., hjobs⟩
  notFound message after hpost := by
    have hstart := start_mention (w := w)
      (bind_eq_some.mpr ⟨_, _, Run.ask_of_run hpost rolled, rfl⟩)
    obtain ⟨children, rfl, hjobs⟩ := exists_close_of_start rfl hstart h
    exact ⟨status_close_error .., output_close_error .., by simpa using hjobs⟩
  post after hpost := by
    have hstart := start_mention (w := w)
      (bind_eq_some.mpr ⟨_, _, Run.ask_of_run hpost rolled, rfl⟩)
    obtain ⟨children, rfl, hjobs⟩ := exists_close_of_start rfl hstart h
    exact ⟨status_close_ok .., output_close_ok .., by simpa using hjobs⟩

/-- Once it is known where to look, the children of a mention come of their jobs, done one after the
other. -/
theorem exists_mapM_of_perform {root : Node ι} {s : τ × σ}
    (h : w.perform (.request (.mention m)) (asked, rolled) = some (root, s)) :
    ∃ places result started, w.surroundings m (asked, rolled) = some ((places, result), started) ∧
      root.children.map Node.job =
        ownJobs m ++ places.map (fun (place, label) => .parseItem place label) ∧
      (root.children.map Node.job).mapM w.perform started = some (root.children, s) := by
  obtain ⟨jobs, result, started, hstart, children, worked, hchildren, result', hfinish, hclose⟩ :=
    exists_of_perform_eq_some h
  obtain ⟨-, -, hjobs⟩ := exists_close_of_start rfl hstart h
  obtain ⟨⟨places, _⟩, _, hplaces, hown⟩ := bind_eq_some.mp hstart
  cases hown
  cases hfinish
  refine ⟨places, result, started, hplaces, hjobs, ?_⟩
  rw [hjobs, hclose, close_children]
  exact hchildren

end Workshop

/-! ### Notes in reports -/

/-- What a report says of things that were left out: how many they are, unless there are none. -/
def skipNote (left : Nat) (what : String) : String :=
  if left = 0 then "" else Report.itemBreak ++ "*" ++ toString left ++ what

/-- The note on comments and the note on links stand between what was found and the signature. -/
theorem Node.footer_eq (n : Node ι) (config : Config) : n.footer config =
    skipNote n.skippedComments " more top-level comments weren't checked.*" ++
      skipNote n.skippedLinks " more links weren't followed.*" ++
      Report.sectionBreak ++ config.signature ++
      if config.showWorkLog then Report.itemBreak ++ asCode n.tree else "" := rfl

namespace Workshop

variable [DecidableEq ι]

/-- A mention leads to its own item and the links of it, to the post it was made under, and to the
other comments on that post, in order and numbered, up to the limit; the root says how many are left
out, and a scan does so with the links of its item. If the source fails, what was found before that is
looked at nevertheless. The report has a note on comments or links just if some are left out. -/
theorem mention_fans_out (w : Workshop ι τ σ) (m : ι) (asked : τ) (rolled : σ) :
    (w.roller.Answers →
      ∃ root after, w.answer (.mention m) (asked, rolled) = some (root, after)) ∧
    (∀ job s n s', w.perform job s = some (n, s') →
      ∀ scan ∈ n.preorder, ∀ item label, scan.job = .scanLinks item label →
        ∃ asked rolled after, w.scanLinks item label (asked, rolled) = some (scan, after) ∧
          w.Scans item asked scan) ∧
    ∀ root after, w.answer (.mention m) (asked, rolled) = some (root, after) →
      root.isExecuted = true ∧ w.LooksAround m asked root ∧
      (∃ answer started, w.surroundings m (asked, rolled) = some (answer, started) ∧
        (root.children.map Node.job).mapM w.perform started = some (root.children, after)) ∧
      ∃ own scan others, root.children = own :: scan :: others ∧
        scan.job = .scanLinks m "your comment" ∧
        root.report = root.body ++
          (skipNote (Output.skippedCount root.output) " more top-level comments weren't checked.*" ++
            skipNote (Output.skippedCount scan.output) " more links weren't followed.*" ++
            Report.sectionBreak ++ w.config.signature ++
            if w.config.showWorkLog then Report.itemBreak ++ Node.asCode root.tree else "") := by
  refine ⟨fun hanswers => ?_, fun job s n s' hrun scan hscan item label hjob => ?_,
    fun root after hanswer => ?_⟩
  · obtain ⟨root, after, hanswer, -⟩ := ends_answer hanswers (.mention m) (asked, rolled)
    exact ⟨root, after, hanswer⟩
  · obtain ⟨⟨asked, rolled⟩, after, hrun⟩ := exists_run_of_mem hrun scan hscan
    rw [hjob] at hrun
    exact ⟨asked, rolled, after, hrun, scans_of_scanLinks hrun⟩
  · have hrun : w.perform (.request (.mention m)) (asked, rolled) = some (root, after) := hanswer
    obtain ⟨places, result, started, hplaces, hjobs, hchildren⟩ := exists_mapM_of_perform hrun
    refine ⟨isExecuted_of_perform hrun, looksAround_of_answer hanswer, ?_, ?_⟩
    · exact ⟨_, started, hplaces, hchildren⟩
    · obtain ⟨own, scan, others, hroot, hscan, hlinks⟩ := exists_scan_of_children hjobs
      refine ⟨own, scan, others, hroot, hscan, ?_⟩
      have hjob : root.job = .request (.mention m) := job_of_perform hrun
      rw [report_of_perform hrun, ← hlinks]
      simp only [Node.render, hjob]
      rw [Node.footer_eq, Node.skippedComments]

/-- Three other comments and three links where the limit is two: one of each is left out. -/
theorem mention_among_many_comments :
    let html := "<a href='http://a.net'>A</a> <a href='http://b.net'>B</a> <a href='http://c.net'>C</a>"
    let comment : Stored := { content := { text := "d2 Fate\n1. Luck\n2. Loss" }, parent := some 0 }
    let memory : Memory := { items := [
      { content := { text := "What happens next?" } }, comment,
      { content := { text := "Elsewhere?", html := some html }, parent := some 0 },
      comment, comment] }
    let config : Config := { limits := { maxFanOut := 2 } }
    let w : Workshop Nat Memory Unit := Workshop.mk config Memory.source .highest
    ∃ root, w.answer (.mention 2) (memory, ()) = some (root, memory, ()) ∧
      root.children.map Node.job = ownJobs 2 ++ [postJob 0] ++ commentJobs [1, 3] ∧
      root.output = some (.skipped 1) ∧ root.skippedLinks = 1 ∧ root.isExecuted = true := by
  intro html comment memory config w
  have hanswers : w.roller.Answers := fun _ => .pure _
  obtain ⟨hends, -, hall⟩ := mention_fans_out w 2 memory ()
  obtain ⟨root, after, hrun⟩ := hends hanswers
  obtain ⟨hexecuted, hlooks, -, -⟩ := hall root after hrun
  obtain ⟨-, hfans⟩ := hlooks.listed 0 memory [1, 2, 3, 4] memory rfl rfl
  have hfacts : (w.answer (.mention 2) (memory, ())).any (fun r =>
      r.2 = (memory, ()) ∧ r.1.skippedLinks = 1) = true := by decide +kernel
  rw [hrun, Option.any_some] at hfacts
  obtain ⟨rfl, hlinks⟩ := of_decide_eq_true hfacts
  exact ⟨root, hrun, hfans.jobs_eq, (hfans.skipped_iff 1).mpr ⟨rfl, by decide⟩, hlinks, hexecuted⟩

end Workshop

end DiceTables
