import DiceTables.Proofs.Termination
import DiceTables.Proofs.Tree
import DiceTables.Work.Memory

/-!
The tree of a request is a record of table rolls. Its node for a table is done with the outcome that
rolling the table gives, or failed if rolling it fails, although the work first rolls the expression
in a node of its own and looks for the outcome afterwards. Rolling the tables of the tree again, from
the state in which the roller was before the request, gives the same results and leaves the roller
in the same state.

The invariant is that the rolls so far lead to the current state of the roller. Only the work on a
table changes that state, and it adds one roll; everything else passes the rolls of its parts on, in
the order in which the tree lists them.
-/

namespace DiceTables

variable {ι τ σ α β : Type}

/-- The node says what came of rolling its table. -/
structure Node.Records (n : Node ι) (r : Except TableError Outcome) : Prop where
  ok_iff : ∀ o, r = .ok o ↔ n.status = .done ∧ n.output = some (.outcome o)
  error_iff : (∃ err, r = .error err) ↔ ∃ reason, n.status = .failed reason

/-- Rolling the tables of a list one after the other leads from one state of the roller to another,
and gives what their nodes say. -/
def Replays (roller : Roller σ) (rolls : List (Table × Node ι)) (start stop : σ) : Prop :=
  ∃ results, (rolls.map Prod.fst).mapM roller.rollTable start = some (results, stop) ∧
    List.Forall₂ (fun p r => p.2.Records r) rolls results

namespace Replays

variable {roller : Roller σ} {rolls more : List (Table × Node ι)} {start middle stop : σ}

theorem nil : Replays roller ([] : List (Table × Node ι)) start start :=
  ⟨[], by rw [List.map_nil, List.mapM_nil, pure_apply], .nil⟩

theorem single {t : Table} {n : Node ι} {r : Except TableError Outcome}
    (hroll : roller.rollTable t start = some (r, stop)) (hn : n.Records r) :
    Replays roller [(t, n)] start stop := by
  refine ⟨[r], ?_, .cons hn .nil⟩
  rw [List.map_singleton, List.mapM_cons, bind_eq_some]
  exact ⟨r, stop, hroll, by rw [List.mapM_nil, pure_bind, pure_apply]⟩

theorem append : Replays roller rolls start middle → Replays roller more middle stop →
    Replays roller (rolls ++ more) start stop := by
  rintro ⟨results, hrun, hall⟩ ⟨results', hrun', hall'⟩
  refine ⟨results ++ results', ?_, List.rel_append hall hall'⟩
  rw [List.map_append, List.mapM_append, bind_eq_some]
  refine ⟨results, middle, hrun, ?_⟩
  rw [bind_eq_some]
  exact ⟨results', stop, hrun', pure_apply _ _⟩

end Replays

/-! ### Keeping track of rolls -/

/-- If some rolls lead to the state of the roller before the work, those that are given for its result
lead to the state after it. -/
def Tracks (roller : Roller σ) (before : List (Table × Node ι)) (x : Run τ σ α)
    (after : α → List (Table × Node ι)) : Prop :=
  ∀ start asked rolled a asked' rolled', Replays roller before start rolled →
    x (asked, rolled) = some (a, asked', rolled') → Replays roller (after a) start rolled'

namespace Tracks

variable {roller : Roller σ} {before : List (Table × Node ι)} {x : Run τ σ α} {f : α → Run τ σ β}
  {middle : α → List (Table × Node ι)} {after : β → List (Table × Node ι)}

theorem pure {b : β} (h : after b = before) :
    Tracks roller before (Pure.pure b : Run τ σ β) after := by
  intro start asked rolled b' asked' rolled' hbefore hrun
  obtain ⟨rfl, rfl, rfl⟩ : b = b' ∧ asked = asked' ∧ rolled = rolled' := by
    simpa [pure_apply] using hrun
  rw [h]
  exact hbefore

theorem bind (hx : Tracks roller before x middle)
    (hf : ∀ a, Tracks roller (middle a) (f a) after) : Tracks roller before (x >>= f) after := by
  intro start asked rolled b asked' rolled' hbefore hrun
  obtain ⟨a, ⟨askedMid, rolledMid⟩, hrunx, hrunf⟩ := bind_eq_some.mp hrun
  have hmiddle := hx start asked rolled a askedMid rolledMid hbefore hrunx
  exact hf a start askedMid rolledMid b asked' rolled' hmiddle hrunf

/-- The source does not roll dice. -/
theorem ask (question : StateM τ α) :
    Tracks roller before (Run.ask question : Run τ σ α) fun _ => before := by
  intro start asked rolled a asked' rolled' hbefore hrun
  obtain ⟨-, -, rfl⟩ : _ ∧ _ ∧ rolled = rolled' := by simpa using Run.ask_eq_some.mp hrun
  exact hbefore

/-- Nodes that are made one after the other add their rolls in this order. -/
theorem mapM {f : α → Run τ σ (Node ι)}
    (h : ∀ before a, Tracks roller before (f a) fun n => before ++ n.tableRolls) :
    ∀ (before : List (Table × Node ι)) (xs : List α),
      Tracks roller before (xs.mapM f) fun ns => before ++ ns.flatMap Node.tableRolls
  | before, [] => by
    rw [List.mapM_nil]
    exact .pure (by simp)
  | before, a :: xs => by
    rw [List.mapM_cons]
    refine (h before a).bind fun n => ?_
    refine (Tracks.mapM h _ xs).bind fun ns => ?_
    exact .pure (by simp)

end Tracks

/-! ### The work on a table -/

namespace Workshop

variable {w : Workshop ι τ σ}

theorem records_ok (job : Job ι) (o : Outcome) (children : List (Node ι)) :
    (w.close job (.ok (some (.outcome o))) children).Records (.ok o) where
  ok_iff o' := by simp
  error_iff := by simp

theorem records_error (job : Job ι) (failure : Failure) (children : List (Node ι))
    (err : TableError) : (w.close job (.error failure) children).Records (.error err) where
  ok_iff o := by simp
  error_iff := by simp

/-- The node of an expression that has been rolled. -/
def rolledNode (w : Workshop ι τ σ) (expr : Expr) (roll : Evaluated) : Node ι :=
  w.close (.evalExpr expr)
    (match roll.result with
    | .ok value => .ok (some (.roll roll value))
    | .error err => .error (.value err)) []

theorem rollTable_eq (t : Table) :
    w.rollTable t = do
      let roll ← Run.dice (w.roller.eval t.expr)
      let result ← w.finishTable t [w.rolledNode t.expr roll]
      return w.close (.rollTable t) result [w.rolledNode t.expr roll] := by
  simp only [rollTable, evaluate, bind_assoc, pure_bind]
  rfl

/-- A roll without a value is a failure of the node below, which the table takes over. -/
theorem finishTable_of_error {t : Table} {roll : Evaluated} {err : CalcError}
    (h : roll.result = .error err) :
    w.finishTable t [w.rolledNode t.expr roll] = pure (.error (.rollFailed err.message)) := by
  have hfailure : (w.rolledNode t.expr roll).failure? = some err.message := by
    rw [rolledNode, h, Node.failure?, status_close_error]
    rfl
  rw [finishTable, List.findSome?_cons, hfailure]

/-- A roll with a value is found in the node below, and resolved. -/
theorem finishTable_of_ok {t : Table} {roll : Evaluated} {value : Int}
    (h : roll.result = .ok value) :
    w.finishTable t [w.rolledNode t.expr roll] = do
      let r ← Run.dice (w.roller.resolve t roll)
      return (r.map fun o => some (.outcome o)).mapError .table := by
  have hfailure : (w.rolledNode t.expr roll).failure? = none := by
    rw [rolledNode, h, Node.failure?, status_close_ok]
  have hroll : Output.roll? (w.rolledNode t.expr roll).output = some roll := by
    rw [rolledNode, h, output_close_ok, Output.roll?]
  rw [finishTable, List.findSome?_cons, hfailure, List.findSome?_nil]
  simp only [List.findSome?_cons, hroll]
  refine bind_congr fun r => ?_
  cases r with
  | error err => rfl
  | ok o => rfl

/-- The table is done with the outcome that its roll resolves to, or fails if the roll does not
resolve; the dice are the same. -/
theorem finishTable_eq_some {t : Table} {roll : Evaluated} {result : Result} {asked asked' : τ}
    {rolled rolled' : σ} (h : w.finishTable t [w.rolledNode t.expr roll] (asked, rolled) =
      some (result, asked', rolled')) :
    (∃ o, w.roller.resolve t roll rolled = some (.ok o, rolled') ∧
      result = .ok (some (.outcome o))) ∨
    ∃ err failure, w.roller.resolve t roll rolled = some (.error err, rolled') ∧
      result = .error failure := by
  cases hvalue : roll.result with
  | error err =>
    rw [finishTable_of_error hvalue] at h
    cases h
    exact .inr ⟨_, _, by rw [w.roller.resolve_of_error hvalue, pure_apply], rfl⟩
  | ok value =>
    rw [finishTable_of_ok hvalue, bind_eq_some] at h
    obtain ⟨r, mid, hdice, h⟩ := h
    obtain ⟨_, _, hresolve, hsame⟩ := Run.dice_eq_some.mp hdice
    cases hsame
    cases r with
    | error err =>
      cases h
      exact .inr ⟨_, _, hresolve, rfl⟩
    | ok o =>
      cases h
      exact .inl ⟨_, hresolve, rfl⟩

/-- The node of a table records what rolling the table gives from the same state of the roller. -/
theorem rollTable_eq_some {t : Table} {n : Node ι} {asked asked' : τ} {rolled rolled' : σ}
    (h : w.rollTable t (asked, rolled) = some (n, asked', rolled')) :
    n.tableRolls = [(t, n)] ∧
      ∃ r, w.roller.rollTable t rolled = some (r, rolled') ∧ n.Records r := by
  rw [rollTable_eq, bind_eq_some] at h
  obtain ⟨roll, ⟨_, rolledMid⟩, hdice, h⟩ := h
  obtain ⟨_, _, heval, hsame⟩ := Run.dice_eq_some.mp hdice
  cases hsame
  obtain ⟨result, mid, hfinish, hclose⟩ := bind_eq_some.mp h
  cases hclose
  have hchild : (w.rolledNode t.expr roll).tableRolls = [] := tableRolls_close ..
  refine ⟨?_, ?_⟩
  · rw [tableRolls_close, List.flatMap_singleton, hchild]
    rfl
  · rcases finishTable_eq_some hfinish with ⟨o, hresolve, rfl⟩ | ⟨err, failure, hresolve, rfl⟩
    · exact ⟨.ok o, bind_eq_some.mpr ⟨_, _, heval, hresolve⟩, records_ok ..⟩
    · exact ⟨.error err, bind_eq_some.mpr ⟨_, _, heval, hresolve⟩, records_error ..⟩

/-! ### Larger work -/

theorem tracks_rollTable (before : List (Table × Node ι)) (t : Table) :
    Tracks w.roller before (w.rollTable t) fun n => before ++ n.tableRolls := by
  intro start asked rolled n asked' rolled' hbefore hrun
  obtain ⟨hrolls, r, hroll, hrecords⟩ := rollTable_eq_some hrun
  show Replays w.roller (before ++ n.tableRolls) start rolled'
  rw [hrolls]
  exact hbefore.append (.single hroll hrecords)

/-- Closing a node other than one for a table leaves the rolls to its children. -/
theorem tracks_close {before middle : List (Table × Node ι)} {job : Job ι}
    (hjob : job.table? = none) (result : Result) {children : List (Node ι)}
    (hmiddle : middle = before ++ children.flatMap Node.tableRolls) :
    Tracks w.roller middle (pure (w.close job result children) : Run τ σ (Node ι))
      fun n => before ++ n.tableRolls := by
  refine .pure ?_
  rw [tableRolls_close, hjob, hmiddle]
  rfl

theorem tracks_parseItem (before : List (Table × Node ι)) (item : ι) (label : String) :
    Tracks w.roller before (w.parseItem item label) fun n => before ++ n.tableRolls := by
  refine (Tracks.ask _).bind fun answer => ?_
  cases answer with
  | error message => exact tracks_close rfl _ (by simp)
  | ok content =>
    dsimp only
    split
    · exact tracks_close rfl _ (by simp)
    · refine (Tracks.mapM tracks_rollTable before _).bind fun children => ?_
      exact tracks_close rfl _ rfl

theorem tracks_followLink (before : List (Table × Node ι)) (link : Link) :
    Tracks w.roller before (w.followLink link) fun n => before ++ n.tableRolls := by
  refine (Tracks.ask _).bind fun answer => ?_
  rcases answer with message | none | item
  · exact tracks_close rfl _ (by simp)
  · exact tracks_close rfl _ (by simp)
  · refine (tracks_parseItem before item _).bind fun child => ?_
    exact tracks_close rfl _ (by simp)

theorem tracks_scanLinks (before : List (Table × Node ι)) (item : ι) (label : String) :
    Tracks w.roller before (w.scanLinks item label) fun n => before ++ n.tableRolls := by
  refine (Tracks.ask _).bind fun answer => ?_
  cases answer with
  | error message => exact tracks_close rfl _ (by simp)
  | ok content =>
    dsimp only
    split
    · exact tracks_close rfl _ (by simp)
    · refine (Tracks.mapM tracks_followLink before _).bind fun children => ?_
      exact tracks_close rfl _ rfl

variable [DecidableEq ι]

/-- Where to look for more tables is asked of the source alone. -/
theorem tracks_surroundings (before : List (Table × Node ι)) (item : ι) :
    Tracks w.roller before (w.surroundings item) fun _ => before := by
  refine (Tracks.ask _).bind fun answer => ?_
  rcases answer with message | none | post
  · exact .pure rfl
  · exact .pure rfl
  · refine (Tracks.ask _).bind fun answer => ?_
    cases answer with
    | error message => exact .pure rfl
    | ok comments => exact .pure rfl

theorem tracks_answer (before : List (Table × Node ι)) : ∀ request : Request ι,
    Tracks w.roller before (w.answer request) fun n => before ++ n.tableRolls
  | .message item => by
    refine (tracks_parseItem before item _).bind fun own => ?_
    refine (tracks_scanLinks _ item _).bind fun links => ?_
    exact tracks_close rfl _ (by simp)
  | .mention item => by
    refine (tracks_surroundings before item).bind fun (places, result) => ?_
    refine (tracks_parseItem before item _).bind fun own => ?_
    refine (tracks_scanLinks _ item _).bind fun links => ?_
    refine (Tracks.mapM (fun _ p => tracks_parseItem _ p.1 p.2) _ places).bind fun others => ?_
    exact tracks_close rfl result (by simp)

/-- Every request is answered by a roller that answers. Rolling the tables in the tree of an answer
once more, from the same state of the roller, gives what the tree says of each of them and leaves the
roller in the same state. -/
theorem answer_replays (w : Workshop ι τ σ) (request : Request ι) (asked : τ) (start : σ) :
    (w.roller.Answers →
      ∃ node asked' stop, w.answer request (asked, start) = some (node, asked', stop)) ∧
    ∀ node asked' stop, w.answer request (asked, start) = some (node, asked', stop) →
      ∃ results, (node.tableRolls.map Prod.fst).mapM w.roller.rollTable start = some (results, stop) ∧
        List.Forall₂ (fun p r => p.2.Records r) node.tableRolls results := by
  constructor
  · intro hanswers
    obtain ⟨node, ⟨asked', stop⟩, hrun, -⟩ := ends_answer hanswers request (asked, start)
    exact ⟨node, asked', stop, hrun⟩
  · intro node asked' stop hrun
    exact tracks_answer [] request start asked start node asked' stop .nil hrun

/-- A message with two tables, answered with dice that show zero: the first table is done, the
second divides by zero and fails. -/
theorem answer_with_failed_table : ∃ memory node stop results,
    (Workshop.mk {} Memory.source (.fixed 0)).answer (.message 0) (memory, ()) =
      some (node, memory, stop) ∧
    node.tableRolls.map (fun p => (p.1.text, p.2.failure?)) =
      [("d4 Fruit", none), ("d4 / d4 Shares", some "the roll failed: division by zero")] ∧
    (node.tableRolls.map Prod.fst).mapM (Roller.fixed 0).rollTable () = some (results, stop) ∧
    List.Forall₂ (fun p r => p.2.Records r) node.tableRolls results := by
  let memory : Memory := { items := [{ content :=
    { text := "d4 Fruit\n1. Apple\n2-4. Banana\n\nd4 / d4 Shares\n0-1. Few\n2-4. Many" } }] }
  let w : Workshop Nat Memory Unit := Workshop.mk {} Memory.source (.fixed 0)
  have hfacts : (w.answer (.message 0) (memory, ())).any (fun r =>
      r.2.1 = memory ∧ r.1.tableRolls.map (fun p => (p.1.text, p.2.failure?)) =
        [("d4 Fruit", none), ("d4 / d4 Shares", some "the roll failed: division by zero")]) =
      true := by decide +kernel
  obtain ⟨hends, hreplays⟩ := answer_replays w (.message 0) memory ()
  obtain ⟨node, memory', stop, hrun⟩ := hends (Roller.answers_fixed 0)
  obtain ⟨results, hresults, hall⟩ := hreplays node memory' stop hrun
  rw [hrun, Option.any_some] at hfacts
  obtain ⟨hmemory, hrolls⟩ := of_decide_eq_true hfacts
  obtain rfl : memory' = memory := hmemory
  exact ⟨memory, node, stop, results, hrun, hrolls, hresults, hall⟩

end Workshop

end DiceTables
