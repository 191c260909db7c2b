import DiceTables.Proofs.Settled

/-!
Failures stay where they are. If a source that does not change loses the content of one item, then
the trees of a request before and after differ in the nodes that read this item: those fail, and
nothing is below them any more. All other nodes are as before, and in the same places; at most the
reports of those above a lost item change.

Two runs are compared, so what chance could do has to be the same in both: the roller answers by the
sides of a die alone. A computation is then known by its result (`Yields`), and two computations are
`Alike` if their results are related. One step of the walk takes related children to related nodes.
-/

namespace DiceTables

variable {ι τ τ' σ α β γ δ : Type}

/-! ### Dice without chance -/

/-- From every state the computation ends with the same result. -/
def Constant (x : StateT σ Option α) : Prop := ∃ a, Gives x (· = a)

theorem compositional_constant : Compositional fun α (x : StateT σ Option α) => Constant x where
  pure a := ⟨a, .pure rfl⟩
  bind := by
    rintro α β x f ⟨a, ha⟩ hf
    obtain ⟨b, hb⟩ := hf a
    refine ⟨b, ha.bind ?_⟩
    rintro _ rfl
    exact hb

namespace Roller

/-- A roller that answers by the number of sides alone. -/
def Steady (roller : Roller σ) : Prop := ∀ sides, Constant (roller.draw sides)

theorem steady_highest : highest.Steady := fun sides => compositional_constant.pure sides

theorem Steady.answers {roller : Roller σ} (h : roller.Steady) : roller.Answers := by
  intro sides
  obtain ⟨value, hvalue⟩ := h sides
  exact hvalue.mono fun _ _ => trivial

end Roller

/-! ### Sources that do not change -/

namespace Source

/-- Asking the source does not change it. -/
structure ReadOnly (source : Source ι τ) : Prop where
  content : ∀ item asked, ((source.content item).run asked).2 = asked
  target : ∀ href asked, ((source.target href).run asked).2 = asked
  comments : ∀ item asked, ((source.comments item).run asked).2 = asked
  submission : ∀ item asked, ((source.submission item).run asked).2 = asked

/-- Two sources, each in a state, answer alike, as far as the content of some items goes. -/
structure Agree (known : ι → Prop) (source : Source ι τ) (asked : τ) (source' : Source ι τ')
    (asked' : τ') : Prop where
  content : ∀ item, known item →
    ((source.content item).run asked).1 = ((source'.content item).run asked').1
  target : ∀ href, ((source.target href).run asked).1 = ((source'.target href).run asked').1
  comments : ∀ item, ((source.comments item).run asked).1 = ((source'.comments item).run asked').1
  submission : ∀ item,
    ((source.submission item).run asked).1 = ((source'.submission item).run asked').1

theorem Agree.refl (known : ι → Prop) (source : Source ι τ) (asked : τ) :
    Agree known source asked source asked where
  content _ _ := rfl
  target _ := rfl
  comments _ := rfl
  submission _ := rfl

/-- The second source does not have the content of `x`, and otherwise answers like the first one. -/
structure Loses (x : ι) (message : String) (source : Source ι τ) (asked : τ)
    (source' : Source ι τ') (asked' : τ') : Prop
    extends Agree (· ≠ x) source asked source' asked' where
  lost : ((source'.content x).run asked').1 = .error message

theorem readOnly_memory : Memory.source.ReadOnly where
  content _ _ := rfl
  target _ _ := rfl
  comments _ _ := rfl
  submission _ _ := rfl

/-- A question that an outage may concern does not change the source either. -/
theorem run_outage {question : StateM τ (Except String α)} {asked : τ}
    (h : (question.run asked).2 = asked) (concerned : Bool) (message : String) :
    ((if concerned then return .error message else question : StateM τ _).run asked).2 = asked := by
  cases concerned with
  | false => exact h
  | true => rfl

theorem ReadOnly.during {source : Source ι τ} (h : source.ReadOnly) (outage : Outage ι)
    (message : String) : (source.during outage message).ReadOnly where
  content item asked := run_outage (h.content item asked) _ message
  target href asked := run_outage (h.target href asked) _ message
  comments item asked := run_outage (h.comments item asked) _ message
  submission item asked := run_outage (h.submission item asked) _ message

/-- An outage of one item makes a source lose it. -/
theorem loses_during [DecidableEq ι] (source : Source ι τ) (x : ι) (message : String) (asked : τ) :
    Loses x message source asked (source.during { content := (· = x) } message) asked where
  content item hitem := by simp [during, hitem]
  target _ := rfl
  comments _ := rfl
  submission _ := rfl
  lost := by
    simp only [during, decide_true, ↓reduceIte]
    rfl

end Source

/-! ### Results of computations -/

/-- Work that leaves the source as it is and comes to a result whatever the state of the roller. -/
def Yields (asked : τ) (x : Run τ σ α) (a : α) : Prop :=
  ∀ rolled, ∃ rolled', x (asked, rolled) = some (a, asked, rolled')

namespace Yields

variable {asked : τ} {x : Run τ σ α} {f : α → Run τ σ β} {a : α} {b : β}

theorem pure : Yields asked (Pure.pure a : Run τ σ α) a := fun rolled => ⟨rolled, rfl⟩

theorem bind (hx : Yields asked x a) (hf : Yields asked (f a) b) : Yields asked (x >>= f) b := by
  intro rolled
  obtain ⟨rolledMid, hrunx⟩ := hx rolled
  obtain ⟨rolled', hrunf⟩ := hf rolledMid
  exact ⟨rolled', bind_eq_some.mpr ⟨a, (asked, rolledMid), hrunx, hrunf⟩⟩

theorem ask {question : StateM τ α} (hsame : (question.run asked).2 = asked)
    (hanswer : (question.run asked).1 = a) :
    Yields asked (Run.ask question : Run τ σ α) a := by
  intro rolled
  exact ⟨rolled, Run.ask_eq_some.mpr (by rw [hsame, hanswer])⟩

theorem dice {rolls : StateT σ Option α} (h : Gives rolls (· = a)) :
    Yields asked (Run.dice rolls) a := by
  intro rolled
  obtain ⟨_, rolled', hrolls, rfl⟩ := h rolled
  exact ⟨rolled', Run.dice_eq_some.mpr ⟨_, rolled', hrolls, rfl⟩⟩

/-- The result has every property that the work gives. -/
theorem of_gives {P : α → Prop} (hx : Yields asked x a) (h : Gives x P) (rolled : σ) : P a := by
  obtain ⟨rolled', hrun⟩ := hx rolled
  obtain ⟨a', s, hrun', ha⟩ := h (asked, rolled)
  rw [hrun] at hrun'
  cases hrun'
  exact ha

end Yields

/-- Two pieces of work come to results that are related. -/
def Alike (asked : τ) (asked' : τ') (R : α → β → Prop) (x : Run τ σ α) (y : Run τ' σ β) : Prop :=
  ∃ a b, Yields asked x a ∧ Yields asked' y b ∧ R a b

namespace Alike

variable {asked : τ} {asked' : τ'} {R : α → β → Prop} {S : γ → δ → Prop} {x : Run τ σ α}
  {y : Run τ' σ β} {f : α → Run τ σ γ} {g : β → Run τ' σ δ}

theorem pure {a : α} {b : β} (h : R a b) :
    Alike asked asked' R (Pure.pure a : Run τ σ α) (Pure.pure b : Run τ' σ β) :=
  ⟨a, b, .pure, .pure, h⟩

theorem mono {R' : α → β → Prop} (hxy : Alike asked asked' R x y)
    (h : ∀ a b, R a b → R' a b) : Alike asked asked' R' x y := by
  obtain ⟨a, b, hx, hy, hab⟩ := hxy
  exact ⟨a, b, hx, hy, h a b hab⟩

theorem bind (hxy : Alike asked asked' R x y) (hfg : ∀ a b, R a b → Alike asked asked' S (f a) (g b)) :
    Alike asked asked' S (x >>= f) (y >>= g) := by
  obtain ⟨a, b, hx, hy, hab⟩ := hxy
  obtain ⟨c, d, hf, hg, hcd⟩ := hfg a b hab
  exact ⟨c, d, hx.bind hf, hy.bind hg, hcd⟩

/-- Work that comes to the same result goes on alike. -/
theorem bind_eq {y : Run τ' σ α} {g : α → Run τ' σ δ} (hxy : Alike asked asked' Eq x y)
    (hfg : ∀ a, Alike asked asked' S (f a) (g a)) : Alike asked asked' S (x >>= f) (y >>= g) := by
  refine hxy.bind ?_
  rintro a _ rfl
  exact hfg a

theorem mapM {g : α → Run τ' σ δ} : ∀ {xs : List α},
    (∀ a ∈ xs, Alike asked asked' S (f a) (g a)) →
      Alike asked asked' (List.Forall₂ S) (xs.mapM f) (xs.mapM g)
  | [], _ => by
    rw [List.mapM_nil, List.mapM_nil]
    exact .pure .nil
  | a :: xs, h => by
    rw [List.mapM_cons, List.mapM_cons]
    obtain ⟨ha, hxs⟩ := List.forall_mem_cons.mp h
    refine ha.bind fun c d hcd => (Alike.mapM hxs).bind fun cs ds hall => ?_
    exact .pure (.cons hcd hall)

theorem ask {question : StateM τ α} {question' : StateM τ' α}
    (hsame : (question.run asked).2 = asked) (hsame' : (question'.run asked').2 = asked')
    (h : (question.run asked).1 = (question'.run asked').1) :
    Alike asked asked' Eq (Run.ask question : Run τ σ α) (Run.ask question' : Run τ' σ α) :=
  ⟨_, _, .ask hsame h, .ask hsame' rfl, rfl⟩

theorem dice {rolls : StateT σ Option α} (h : Constant rolls) :
    Alike asked asked' Eq (Run.dice rolls) (Run.dice rolls) := by
  obtain ⟨a, ha⟩ := h
  exact ⟨a, a, .dice ha, .dice ha, rfl⟩

end Alike

/-! ### Trees that differ by a lost item -/

/-- The job reads the item. -/
def Job.Reads (x : ι) : Job ι → Prop
  | .parseItem item _ => item = x
  | .scanLinks item _ => item = x
  | _ => False

theorem Job.LeadsTo.not_reads {t : Table} {job : Job ι} (h : (Job.rollTable t).LeadsTo job)
    (x : ι) : ¬ job.Reads x := by
  cases h
  exact not_false

namespace Node

/-- The second tree is what the first one becomes if the content of `x` cannot be had: the nodes that
read `x` fail with a message and have no children, and all other nodes stay as they are, except for
the reports of those above a lost item. -/
inductive WithoutItem (x : ι) (message : String) : Node ι → Node ι → Prop
  | lost {n n' : Node ι} (reads : n.job.Reads x) (job : n'.job = n.job)
    (failed : n'.status = .failed (Failure.source message).message) (children : n'.children = []) :
    WithoutItem x message n n'
  | kept {n n' : Node ι} (apart : ¬ n.job.Reads x) (job : n'.job = n.job)
    (status : n'.status = n.status) (output : n'.output = n.output)
    (children : List.Forall₂ (WithoutItem x message) n.children n'.children)
    (report : (∀ m ∈ n.preorder, ¬ m.job.Reads x) → n'.report = n.report) :
    WithoutItem x message n n'

/-- A tree in which nothing reads the lost item stays as it is. -/
theorem WithoutItem.eq_of_apart {x : ι} {message : String} {n n' : Node ι}
    (h : n.WithoutItem x message n') (hapart : ∀ m ∈ n.preorder, ¬ m.job.Reads x) : n' = n := by
  induction n using induct generalizing n' with
  | h n ih =>
    obtain ⟨hroot, hbelow⟩ := forall_mem_preorder.mp hapart
    cases h with
    | lost reads => exact absurd reads hroot
    | kept _ job status output children report =>
      have hchildren : n'.children = n.children :=
        eq_of_forall₂ children fun c hc c' hcc' => ih c hc hcc' (hbelow c hc)
      have hreport := report hapart
      cases n
      cases n'
      simp_all only

end Node

/-! ### The walk over two sources -/

namespace Workshop

/-- The same workshop with another source. -/
def withSource (w : Workshop ι τ σ) (source : Source ι τ') : Workshop ι τ' σ where
  config := w.config
  source := source
  roller := w.roller

variable {w : Workshop ι τ σ} {source' : Source ι τ'} {known : ι → Prop} {x : ι} {message : String}
  {asked : τ} {asked' : τ'}

/-- The work can be compared with that over another source: neither source changes, the two agree,
and the roller is steady. -/
structure Comparable (w : Workshop ι τ σ) (source' : Source ι τ') (known : ι → Prop) (asked : τ)
    (asked' : τ') : Prop where
  steady : w.roller.Steady
  readOnly : w.source.ReadOnly
  readOnly' : source'.ReadOnly
  agree : w.source.Agree known asked source' asked'

namespace Comparable

theorem self (h : w.Comparable source' known asked asked') :
    w.Comparable w.source (fun _ => True) asked asked where
  steady := h.steady
  readOnly := h.readOnly
  readOnly' := h.readOnly
  agree := .refl ..

variable (h : w.Comparable source' known asked asked')
include h

theorem content {item : ι} (hitem : known item) :
    Alike asked asked' Eq (Run.ask (w.source.content item) : Run τ σ _)
      (Run.ask (source'.content item) : Run τ' σ _) :=
  .ask (h.readOnly.content item asked) (h.readOnly'.content item asked') (h.agree.content item hitem)

/-- A table is finished alike if its children have come to the same. -/
theorem finishTable {t : Table} {children children' : List (Node ι)}
    (hall : List.Forall₂ (fun c c' => c'.status = c.status ∧ c'.output = c.output) children children') :
    Alike asked asked' Eq (w.finishTable t children)
      ((w.withSource source').finishTable t children') := by
  have hfailure : children'.findSome? Node.failure? = children.findSome? Node.failure? :=
    findSome?_eq_of_forall₂ (hall.imp fun c c' hc => by rw [Node.failure?, hc.1, Node.failure?])
  have hroll : (children'.findSome? fun c => Output.roll? c.output) =
      children.findSome? fun c => Output.roll? c.output :=
    findSome?_eq_of_forall₂ (hall.imp fun c c' hc => by rw [hc.2])
  rw [Workshop.finishTable, Workshop.finishTable, hfailure, hroll]
  cases children.findSome? Node.failure? with
  | some reason => exact .pure rfl
  | none =>
    dsimp only
    cases children.findSome? fun c => Output.roll? c.output with
    | none => exact .pure rfl
    | some roll =>
      refine (Alike.dice (Roller.of_resolve compositional_constant h.steady t roll)).bind_eq fun r => ?_
      cases r with
      | error err => exact .pure rfl
      | ok o => exact .pure rfl

variable [DecidableEq ι]

theorem surroundings (item : ι) :
    Alike asked asked' Eq (w.surroundings item) ((w.withSource source').surroundings item) := by
  refine Alike.bind_eq (.ask (h.readOnly.submission item asked) (h.readOnly'.submission item asked')
    (h.agree.submission item)) fun answer => ?_
  rcases answer with message | none | post
  · exact .pure rfl
  · exact .pure rfl
  · refine Alike.bind_eq (.ask (h.readOnly.comments post asked) (h.readOnly'.comments post asked')
      (h.agree.comments post)) fun answer => ?_
    cases answer with
    | error message => exact .pure rfl
    | ok comments => exact .pure rfl

/-- A job that reads nothing but what both sources know starts alike. -/
theorem start {job : Job ι} (hjob : ∀ item, job.Reads item → known item) :
    Alike asked asked' Eq (w.start job) ((w.withSource source').start job) := by
  rcases job with (item | item) | ⟨item, label⟩ | ⟨item, label⟩ | link | t | e
  · exact (h.surroundings item).bind_eq fun (places, result) => .pure rfl
  · exact .pure rfl
  · refine (h.content (hjob item rfl)).bind_eq fun answer => ?_
    cases answer with
    | error message => exact .pure rfl
    | ok content =>
      dsimp only [withSource]
      cases Table.allIn content.text.toList w.config.limits with
      | nil => exact .pure rfl
      | cons t more => exact .pure rfl
  · refine (h.content (hjob item rfl)).bind_eq fun answer => ?_
    cases answer with
    | error message => exact .pure rfl
    | ok content =>
      dsimp only [withSource]
      cases content.links with
      | nil => exact .pure rfl
      | cons link more => exact .pure rfl
  · refine Alike.bind_eq (.ask (h.readOnly.target link.href asked)
      (h.readOnly'.target link.href asked') (h.agree.target link.href)) fun answer => ?_
    rcases answer with message | none | item
    · exact .pure rfl
    · exact .pure rfl
    · exact .pure rfl
  · exact .pure rfl
  · exact (Alike.dice (Roller.of_eval compositional_constant h.steady e)).bind_eq fun roll => .pure rfl

end Comparable

theorem yields_perform [DecidableEq ι] {job : Job ι} {jobs : List (Job ι)} {result result' : Result}
    {children : List (Node ι)} (hstart : Yields asked (w.start job) (jobs, result))
    (hchildren : Yields asked (jobs.mapM w.perform) children)
    (hfinish : Yields asked (w.finish job result children) result') :
    Yields asked (w.perform job) (w.close job result' children) := by
  rw [perform_eq]
  exact hstart.bind (hchildren.bind (hfinish.bind .pure))

/-! ### Jobs that read the lost item -/

theorem yields_finish_of_reads {job : Job ι} (hjob : job.Reads x) (result : Result)
    (children : List (Node ι)) : Yields asked (w.finish job result children) result := by
  cases job with
  | rollTable t => exact hjob.elim
  | _ => exact .pure

/-- A job that reads the lost item fails and leads to nothing. -/
theorem yields_perform_lost [DecidableEq ι] {job : Job ι} (hread : source'.ReadOnly)
    (hlost : ((source'.content x).run asked').1 = .error message) (hjob : job.Reads x) :
    Yields asked' ((w.withSource source').perform job)
      (w.close job (.error (.source message)) []) := by
  have hask : Yields asked' (Run.ask (source'.content x) : Run τ' σ _) (.error message) :=
    .ask (hread.content x asked') hlost
  have hstart : Yields asked' ((w.withSource source').start job) ([], .error (.source message)) := by
    cases job with
    | parseItem item label =>
      obtain rfl : item = x := hjob
      exact hask.bind .pure
    | scanLinks item label =>
      obtain rfl : item = x := hjob
      exact hask.bind .pure
    | _ => exact hjob.elim
  refine yields_perform hstart ?_ (yields_finish_of_reads hjob _ _)
  rw [List.mapM_nil]
  exact .pure

/-! ### Jobs that do not -/

/-- A job that does not read the lost item is finished alike. -/
theorem Comparable.finish (h : w.Comparable source' known asked asked') {job : Job ι}
    {children children' : List (Node ι)} (result : Result)
    (hall : List.Forall₂ (fun c c' => job.LeadsTo c.job ∧ c.WithoutItem x message c') children
      children') :
    Alike asked asked' Eq (w.finish job result children)
      ((w.withSource source').finish job result children') := by
  cases job with
  | rollTable t =>
    refine h.finishTable (hall.imp fun c c' ⟨hleads, hcc'⟩ => ?_)
    cases hcc' with
    | lost reads => exact absurd reads (hleads.not_reads x)
    | kept _ _ status output => exact ⟨status, output⟩
  | _ => exact .pure rfl

/-- Closing a node that does not read the lost item passes on what has become of its children. -/
theorem withoutItem_close {job : Job ι} {result : Result} {children children' : List (Node ι)}
    (hjob : ¬ job.Reads x) (hall : List.Forall₂ (Node.WithoutItem x message) children children') :
    (w.close job result children).WithoutItem x message
      ((w.withSource source').close job result children') := by
  refine .kept (by rwa [close_job]) (by rw [close_job, close_job]) (by cases result <;> rfl)
    (by cases result <;> rfl) (by rwa [close_children, close_children]) fun hapart => ?_
  obtain ⟨-, hbelow⟩ := Node.forall_mem_preorder.mp hapart
  rw [close_children] at hbelow
  obtain rfl : children' = children :=
    eq_of_forall₂ hall fun c hc c' hcc' => hcc'.eq_of_apart (hbelow c hc)
  rfl

/-! ### The whole walk -/

/-- Doing a job over a source that has lost an item gives the same tree without that item. -/
theorem Comparable.perform [DecidableEq ι] (h : w.Comparable source' (· ≠ x) asked asked')
    (hlost : ((source'.content x).run asked').1 = .error message) (rolled : σ) : ∀ job : Job ι,
    Alike asked asked' (fun n n' => n.job = job ∧ n.WithoutItem x message n') (w.perform job)
      ((w.withSource source').perform job) := by
  intro job
  induction hlevels : job.levels using Nat.strong_induction_on generalizing job with
  | h k ih =>
    have hjobs : ∀ jobs result, Yields asked (w.start job) (jobs, result) → Alike asked asked'
        (List.Forall₂ fun c c' => job.LeadsTo c.job ∧ c.WithoutItem x message c')
        (jobs.mapM w.perform) (jobs.mapM (w.withSource source').perform) := by
      intro jobs result hstart
      have hstarts := hstart.of_gives (gives_start h.steady.answers job) rolled
      refine Alike.mapM fun j hj => ?_
      have hleads := hstarts.leadsTo j hj
      refine (ih j.levels (hlevels ▸ hleads.levels_lt) j rfl).mono fun c c' ⟨hc, hcc'⟩ => ⟨?_, hcc'⟩
      rwa [hc]
    by_cases hjob : job.Reads x
    · -- Over the first source the job may lead to anything; all of that is gone over the second.
      have hself : Alike asked asked Eq (w.start job) ((w.withSource w.source).start job) :=
        h.self.start fun _ _ => trivial
      obtain ⟨⟨jobs, result⟩, -, hstart, -, -⟩ := hself
      obtain ⟨children, -, hchildren, -, -⟩ := hjobs jobs result hstart
      have hrun : Yields asked (w.perform job) (w.close job result children) :=
        yields_perform hstart hchildren (yields_finish_of_reads hjob _ _)
      have hrun' := yields_perform_lost (w := w) h.readOnly' hlost hjob
      refine ⟨_, _, hrun, hrun', close_job .., .lost ?_ ?_ (status_close_error ..) (close_children ..)⟩
      · rwa [close_job]
      · rw [close_job, close_job]
    · have hknown : ∀ item, job.Reads item → item ≠ x := by
        rintro item hread rfl
        exact hjob hread
      obtain ⟨⟨jobs, result⟩, _, hstart, hstart', rfl⟩ := h.start hknown
      obtain ⟨children, children', hchildren, hchildren', hall⟩ := hjobs jobs result hstart
      obtain ⟨result', _, hfinish, hfinish', rfl⟩ := h.finish result hall
      have hrun := yields_perform hstart hchildren hfinish
      have hrun' := yields_perform hstart' hchildren' hfinish'
      exact ⟨_, _, hrun, hrun', close_job .., withoutItem_close hjob (hall.imp fun _ _ hcc' => hcc'.2)⟩

/-- If a source loses the content of one item, the tree of a request loses what is below the nodes that
read this item, which fail; everything else in it stays the same, up to the reports above them. -/
theorem answer_without_item [DecidableEq ι] (w : Workshop ι τ σ) (source' : Source ι τ')
    (hroller : w.roller.Steady) (hsource : w.source.ReadOnly) (hsource' : source'.ReadOnly)
    (hloses : w.source.Loses x message asked source' asked') (request : Request ι)
    (rolled rolled' : σ) :
    ∃ n n' stop stop', w.answer request (asked, rolled) = some (n, asked, stop) ∧
      (w.withSource source').answer request (asked', rolled') = some (n', asked', stop') ∧
      n.WithoutItem x message n' := by
  have h : w.Comparable source' (· ≠ x) asked asked' :=
    ⟨hroller, hsource, hsource', hloses.toAgree⟩
  obtain ⟨n, n', hrun, hrun', -, hnn'⟩ := h.perform hloses.lost rolled (.request request)
  obtain ⟨stop, hstop⟩ := hrun rolled
  obtain ⟨stop', hstop'⟩ := hrun' rolled'
  exact ⟨n, n', stop, stop', hstop, hstop', hnn'⟩

/-- A mention links to another comment, so this comment is read twice. When it cannot be had, both
nodes that read it fail, and the request is done nevertheless. -/
theorem answer_without_linked_comment :
    let memory : Memory := { items := [
      { content := { text := "d2 Weather\n1. Sun\n2. Rain" } },
      { content := { text := "Or https://example.com/fate" }, parent := some 0 },
      { content := { text := "d2 Fate\n1. Luck\n2. Loss" }, parent := some 0,
        url := some "https://example.com/fate" }] }
    let source := Memory.source.during { content := (· = 2) } "the server is down"
    let w : Workshop Nat Memory Unit := Workshop.mk {} Memory.source .highest
    w.roller.Steady ∧ w.source.ReadOnly ∧ source.ReadOnly ∧
      w.source.Loses 2 "the server is down" memory source memory ∧
      ∃ n n', w.answer (.mention 1) (memory, ()) = some (n, memory, ()) ∧
        (w.withSource source).answer (.mention 1) (memory, ()) = some (n', memory, ()) ∧
        n.count = 13 ∧ n'.count = 9 ∧ n'.status = .done ∧
        n.WithoutItem 2 "the server is down" n' := by
  intro memory source w
  have hsource : Memory.source.ReadOnly := Source.readOnly_memory
  have hsource' : source.ReadOnly := hsource.during _ _
  have hloses : w.source.Loses 2 "the server is down" memory source memory :=
    Source.loses_during ..
  refine ⟨Roller.steady_highest, hsource, hsource', hloses, ?_⟩
  obtain ⟨n, n', stop, stop', hrun, hrun', hnn'⟩ :=
    answer_without_item w source Roller.steady_highest hsource hsource' hloses (.mention 1) () ()
  have hcount : (w.answer (.mention 1) (memory, ())).any (fun r => r.1.count = 13) = true := by
    decide +kernel
  have hcount' : ((w.withSource source).answer (.mention 1) (memory, ())).any (fun r =>
      r.1.count = 9 ∧ r.1.status = .done) = true := by
    decide +kernel
  rw [hrun, Option.any_some] at hcount
  rw [hrun', Option.any_some] at hcount'
  obtain ⟨hnine, hdone⟩ := of_decide_eq_true hcount'
  exact ⟨n, n', hrun, hrun', of_decide_eq_true hcount, hnine, hdone, hnn'⟩

end Workshop

end DiceTables
