import DiceTables.Work.Resolve

/-!
Trees of work read from the root down. The preorder of a tree lists each node before those below it,
and the children of a node with all that is below them one after the other. The rolls of a tree are
its nodes for tables, in that order.
-/

namespace DiceTables

variable {ι τ σ : Type}

/-- The table that a job rolls. -/
def Job.table? : Job ι → Option Table
  | .rollTable t => some t
  | _ => none

namespace Node

mutual

/-- The nodes of a tree, each before those below it. -/
def preorder : Node ι → List (Node ι)
  | ⟨job, status, output, report, children⟩ =>
    ⟨job, status, output, report, children⟩ :: preorderAll children

/-- The nodes of several trees, one tree after the other. -/
def preorderAll : List (Node ι) → List (Node ι)
  | [] => []
  | n :: more => n.preorder ++ preorderAll more

end

theorem preorderAll_eq_flatMap : ∀ l : List (Node ι), preorderAll l = l.flatMap preorder
  | [] => by rw [preorderAll, List.flatMap_nil]
  | n :: more => by rw [preorderAll, preorderAll_eq_flatMap more, List.flatMap_cons]

theorem preorder_eq (n : Node ι) : n.preorder = n :: n.children.flatMap preorder := by
  cases n
  rw [preorder, preorderAll_eq_flatMap]

/-- What is picked from a tree comes from its root first, then from the trees below it. -/
theorem filterMap_preorder {β : Type} (pick? : Node ι → Option β) (n : Node ι) :
    n.preorder.filterMap pick? =
      (pick? n).toList ++ n.children.flatMap fun c => c.preorder.filterMap pick? := by
  rw [preorder_eq, ← List.filterMap_flatMap]
  cases h : pick? n with
  | none => rw [List.filterMap_cons_none h, Option.toList_none, List.nil_append]
  | some b => rw [List.filterMap_cons_some h, Option.toList_some, List.singleton_append]

/-- A node that rolls a table, with the table. -/
def tableRoll? (n : Node ι) : Option (Table × Node ι) := n.job.table?.map fun t => (t, n)

/-- The nodes of a tree that roll tables, each with its table. -/
def tableRolls (n : Node ι) : List (Table × Node ι) := n.preorder.filterMap tableRoll?

theorem tableRolls_eq (n : Node ι) :
    n.tableRolls = n.tableRoll?.toList ++ n.children.flatMap tableRolls :=
  filterMap_preorder tableRoll? n

end Node

namespace Workshop

variable (w : Workshop ι τ σ) (job : Job ι) (result : Result) (children : List (Node ι))

@[simp] theorem close_job : (w.close job result children).job = job := by
  cases result <;> rfl

@[simp] theorem close_children : (w.close job result children).children = children := by
  cases result <;> rfl

@[simp] theorem status_close_ok (output : Option Output) :
    (w.close job (.ok output) children).status = .done := rfl

@[simp] theorem output_close_ok (output : Option Output) :
    (w.close job (.ok output) children).output = output := rfl

@[simp] theorem status_close_error (failure : Failure) :
    (w.close job (.error failure) children).status = .failed failure.message := rfl

@[simp] theorem output_close_error (failure : Failure) :
    (w.close job (.error failure) children).output = none := rfl

theorem tableRolls_close : (w.close job result children).tableRolls =
    ((job.table?.map fun t => (t, w.close job result children)).toList ++
      children.flatMap Node.tableRolls) := by
  rw [Node.tableRolls_eq, Node.tableRoll?, close_job, close_children]

end Workshop

end DiceTables
