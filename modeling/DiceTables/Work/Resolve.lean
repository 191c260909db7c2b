import DiceTables.Table.Locate
import DiceTables.Work.Report
import DiceTables.Work.Source

/-!
Doing the work. A job first does its own part, which settles the jobs it leads to; those are done
next, in order; then its node is closed with its status and its report. There is one function for
each kind of job, each built from those for the kinds it leads to, so the tree has as many levels as
there are kinds and nothing can go round in circles.

A failure is kept in the node it belongs to. It never stops the work on other nodes.
-/

namespace DiceTables

/-- Why a job has failed. -/
inductive Failure where
  /-- The source did not answer. -/
  | source (message : String)
  /-- A table could not be rolled. -/
  | table (err : TableError)
  /-- An expression has no value. -/
  | value (err : CalcError)
  /-- The expression of a table was not rolled. -/
  | missingValue (name : String)
  /-- The expression of a table has no value. -/
  | rollFailed (reason : String)
deriving DecidableEq, Repr

/-- What a person is told. -/
def Failure.message : Failure → String
  | source message => "couldn't fetch content: " ++ message
  | table err => err.message
  | value err => err.message
  | missingValue name => "no roll was made for the " ++ name ++ " table"
  | rollFailed reason => "the roll failed: " ++ reason

/-- What the work needs: settings, a source of items and a roller. -/
structure Workshop (ι τ σ : Type) where
  /-- Limits, and how reports look. -/
  config : Config
  /-- Where items come from. -/
  source : Source ι τ
  /-- Where rolls come from. -/
  roller : Roller σ

/-- Work that asks the source and rolls dice; nothing once the rolls have run out. -/
abbrev Run (τ σ : Type) := StateT (τ × σ) Option

namespace Run

variable {τ σ α : Type}

/-- Asks the source. -/
def ask (question : StateM τ α) : Run τ σ α := fun (asked, rolled) =>
  let (answer, asked) := question.run asked
  some (answer, asked, rolled)

/-- Rolls dice. -/
def dice (rolls : StateT σ Option α) : Run τ σ α := fun (asked, rolled) => do
  let (value, rolled) ← rolls.run rolled
  return (value, asked, rolled)

end Run

/-- What a job comes to by itself. -/
abbrev Result := Except Failure (Option Output)

/-- Text of a parse without tables. -/
def noTables : String := "No tables found."

/-- Text of a scan without links. -/
def noLinks : String := "No links found."

/-- Text of a link that is not followed. -/
def refusal : String := "Refusing to follow a link outside the supported site."

/-- Label of a comment on the post that a mention was made under. -/
def commentLabel (number : Nat) : String := "top-level comment #" ++ toString number

/-- Label of the item that a link leads to. -/
def linkLabel (link : Link) : String :=
  match link.text with
  | some text => "a linked post (" ++ text ++ ")"
  | none => "a linked post"

/-- How many of a number of things are left out, as the output of a job. -/
def skippedOutput (total limit : Nat) : Option Output :=
  if total - limit = 0 then none else some (.skipped (total - limit))

namespace Workshop

variable {ι τ σ : Type} (w : Workshop ι τ σ)

/-- The node of a job whose children are done. -/
def close (job : Job ι) (result : Result) (children : List (Node ι)) : Node ι :=
  let node : Node ι := match result with
    | .ok output => { job, status := .done, output, children }
    | .error failure => { job, status := .failed failure.message, children }
  { node with report := node.render w.config }

/-- Rolls an expression. -/
def evaluate (expr : Expr) : Run τ σ (Node ι) := do
  let evaluated ← Run.dice (w.roller.eval expr)
  let result : Result := match evaluated.result with
    | .ok value => .ok (some (.roll evaluated value))
    | .error err => .error (.value err)
  return w.close (.evalExpr expr) result []

/-- What comes of a table whose expression has been rolled by its children. -/
def finishTable (table : Table) (children : List (Node ι)) : Run τ σ Result :=
  match children.findSome? Node.failure? with
  | some reason => return .error (.rollFailed reason)
  | none =>
    match children.findSome? fun child => Output.roll? child.output with
    | none => return .error (.missingValue table.text)
    | some roll => do
      match ← Run.dice (w.roller.resolve table roll) with
      | .ok outcome => return .ok (some (.outcome outcome))
      | .error err => return .error (.table err)

/-- Rolls a table: its expression first, then the tables inside the outcome. -/
def rollTable (table : Table) : Run τ σ (Node ι) := do
  let children := [← w.evaluate table.expr]
  return w.close (.rollTable table) (← w.finishTable table children) children

/-- Finds and rolls the tables of an item. -/
def parseItem (item : ι) (label : String) : Run τ σ (Node ι) := do
  match ← Run.ask (w.source.content item) with
  | .error message => return w.close (.parseItem item label) (.error (.source message)) []
  | .ok content =>
    match Table.allIn content.text.toList w.config.limits with
    | [] => return w.close (.parseItem item label) (.ok (some (.note noTables))) []
    | tables => return w.close (.parseItem item label) (.ok none) (← tables.mapM w.rollTable)

/-- Follows a link and looks for tables where it leads. -/
def followLink (link : Link) : Run τ σ (Node ι) := do
  match ← Run.ask (w.source.target link.href) with
  | .error message => return w.close (.followLink link) (.error (.source message)) []
  | .ok none => return w.close (.followLink link) (.ok (some (.note refusal))) []
  | .ok (some item) =>
    return w.close (.followLink link) (.ok none) [← w.parseItem item (linkLabel link)]

/-- Finds and follows the links of an item, as many as the limits allow. -/
def scanLinks (item : ι) (label : String) : Run τ σ (Node ι) := do
  match ← Run.ask (w.source.content item) with
  | .error message => return w.close (.scanLinks item label) (.error (.source message)) []
  | .ok content =>
    match content.links with
    | [] => return w.close (.scanLinks item label) (.ok (some (.note noLinks))) []
    | links =>
      let limit := w.config.limits.maxFanOut
      let children ← (links.take limit).mapM w.followLink
      return w.close (.scanLinks item label) (.ok (skippedOutput links.length limit)) children

variable [DecidableEq ι]

/-- Where else a mention looks for tables, with labels: the post it was made under and the other
comments on that post, as many as the limits allow. -/
def surroundings (item : ι) : Run τ σ (List (ι × String) × Result) := do
  match ← Run.ask (w.source.submission item) with
  | .error message => return ([], .error (.source message))
  | .ok none => return ([], .ok none)
  | .ok (some post) =>
    let own := (post, "the original post")
    match ← Run.ask (w.source.comments post) with
    | .error message => return ([own], .error (.source message))
    | .ok comments =>
      let others := comments.filter (· ≠ item)
      let limit := w.config.limits.maxFanOut
      let labelled := (others.take limit).zipIdx 1 |>.map fun (c, i) => (c, commentLabel i)
      return (own :: labelled, .ok (skippedOutput others.length limit))

/-- Answers a request. -/
def answer (request : Request ι) : Run τ σ (Node ι) := do
  match request with
  | .message item =>
    let own ← w.parseItem item "your message"
    let links ← w.scanLinks item "your message"
    return w.close (.request request) (.ok none) [own, links]
  | .mention item =>
    let (places, result) ← w.surroundings item
    let own ← w.parseItem item "your comment"
    let links ← w.scanLinks item "your comment"
    let others ← places.mapM fun (place, label) => w.parseItem place label
    return w.close (.request request) result (own :: links :: others)

/-- Does a job and everything it leads to. -/
def perform : Job ι → Run τ σ (Node ι)
  | .request request => w.answer request
  | .parseItem item label => w.parseItem item label
  | .scanLinks item label => w.scanLinks item label
  | .followLink link => w.followLink link
  | .rollTable table => w.rollTable table
  | .evalExpr expr => w.evaluate expr

/-- Does the job of a node that has not been done yet; any other node stays as it is. -/
def resolve (node : Node ι) : Run τ σ (Node ι) :=
  match node.status with
  | .pending => w.perform node.job
  | _ => return node

end Workshop

end DiceTables
