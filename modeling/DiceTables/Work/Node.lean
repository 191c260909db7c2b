import DiceTables.Table.Outcome
import DiceTables.Work.Job

/-!
The tree of work that a request grows into. A node holds a job, how it went, what came of it, the
text it adds to the report, and the nodes for the jobs it led to. The work log lists the nodes of a
tree from the root down, each on a line that is indented by its depth.
-/

namespace DiceTables

/-- How a job went. -/
inductive Status where
  /-- It has not been done yet. -/
  | pending
  /-- It has been done. -/
  | done
  /-- It has failed for a reason. -/
  | failed (reason : String)
deriving DecidableEq, Repr

/-- What came of a job. -/
inductive Output where
  /-- Something to know. -/
  | note (text : String)
  /-- How many comments or links were left out. -/
  | skipped (count : Nat)
  /-- A roll and its value. -/
  | roll (evaluated : Evaluated) (value : Int)
  /-- The outcome of a table. -/
  | outcome (o : Outcome)
deriving DecidableEq

namespace Output

/-- Most dice of a group that the work log lists one by one. -/
def listLimit : Nat := 20

/-- What came of a job, on one line. -/
def text : Output → String
  | note text => text
  | skipped count => "skipped " ++ toString count ++ " more"
  | roll evaluated _ => evaluated.describe (some listLimit)
  | outcome o => String.ofList (Text.trim ((Text.lines o.text.toList).headD []))

/-- How many were left out. -/
def skippedCount : Option Output → Nat
  | some (skipped count) => count
  | _ => 0

/-- The roll that was made. -/
def roll? : Option Output → Option Evaluated
  | some (roll evaluated _) => some evaluated
  | _ => none

end Output

/-- A job of a tree, with the jobs it led to. -/
structure Node (ι : Type) where
  /-- What is to be done. -/
  job : Job ι
  /-- How it went. -/
  status : Status := .pending
  /-- What came of it. -/
  output : Option Output := none
  /-- The text it adds to the report. -/
  report : String := ""
  /-- The jobs it led to, in the order they were done. -/
  children : List (Node ι) := []

namespace Node

variable {ι : Type}

/-- The reason for which a node has failed. -/
def failure? (n : Node ι) : Option String :=
  match n.status with
  | .failed reason => some reason
  | _ => none

/-- Whether a node is for the links of an item. -/
def isScan (n : Node ι) : Bool :=
  match n.job with
  | .scanLinks _ _ => true
  | _ => false

/-! ### Whole trees -/

mutual

/-- Number of nodes of a tree. -/
def count : Node ι → Nat
  | ⟨_, _, _, _, children⟩ => 1 + countAll children

/-- Number of nodes of several trees. -/
def countAll : List (Node ι) → Nat
  | [] => 0
  | n :: more => n.count + countAll more

end

mutual

/-- Whether every node of a tree has been done or has failed. -/
def isExecuted : Node ι → Bool
  | ⟨_, status, _, _, children⟩ => status ≠ .pending && allExecuted children

/-- Whether every node of several trees has been done or has failed. -/
def allExecuted : List (Node ι) → Bool
  | [] => true
  | n :: more => n.isExecuted && allExecuted more

end

/-- How a job went and what came of it, for the work log. -/
def summary (status : Status) (output : Option Output) : String :=
  match status, output with
  | .failed reason, _ => "failed: " ++ reason
  | _, some output => output.text
  | .done, none => "done"
  | .pending, none => "pending"

mutual

/-- The lines of the work log for a tree whose root is indented `depth` times. -/
def treeLines (depth : Nat) : Node ι → List String
  | ⟨job, status, output, _, children⟩ =>
    (String.join (List.replicate depth "  ") ++ job.text ++ ": " ++ summary status output) ::
      allTreeLines (depth + 1) children

/-- The lines of the work log for several trees next to each other. -/
def allTreeLines (depth : Nat) : List (Node ι) → List String
  | [] => []
  | n :: more => n.treeLines depth ++ allTreeLines depth more

end

/-- The work log of a tree. -/
def tree (n : Node ι) : String := "\n".intercalate (n.treeLines 0)

/-! ### Equality -/

variable [DecidableEq ι]

mutual

/-- Whether two trees are equal. -/
def eqb : Node ι → Node ι → Bool
  | ⟨job, status, output, report, children⟩, ⟨job', status', output', report', children'⟩ =>
    job = job' && status = status' && output = output' && report = report' &&
      eqbAll children children'

/-- Whether two lists of trees are equal. -/
def eqbAll : List (Node ι) → List (Node ι) → Bool
  | [], [] => true
  | n :: more, n' :: more' => eqb n n' && eqbAll more more'
  | _, _ => false

end

mutual

theorem eqb_iff : ∀ n n' : Node ι, eqb n n' = true ↔ n = n'
  | ⟨job, status, output, report, children⟩, ⟨job', status', output', report', children'⟩ => by
    simp only [eqb, Bool.and_eq_true, decide_eq_true_eq, eqbAll_iff children children',
      Node.mk.injEq, and_assoc]

theorem eqbAll_iff : ∀ l l' : List (Node ι), eqbAll l l' = true ↔ l = l'
  | [], [] => by simp [eqbAll]
  | [], _ :: _ => by simp [eqbAll]
  | _ :: _, [] => by simp [eqbAll]
  | n :: more, n' :: more' => by
    simp only [eqbAll, Bool.and_eq_true, eqb_iff n n', eqbAll_iff more more', List.cons.injEq]

end

instance : DecidableEq (Node ι) := fun n n' => decidable_of_iff _ (eqb_iff n n')

end Node

end DiceTables
