import DiceTables.Config
import DiceTables.Work.Node

/-!
Reports. Each node adds a text made of its own result and the reports of its children, empty ones
left out, so what comes out at the root has everything in it that was found below. A job that has
failed is turned into a notice and never hides the reports of its children; only a failed roll
stands alone, because its notice already tells what went wrong beneath it.
-/

namespace DiceTables

namespace Report

/-- Between outcomes of one item. -/
def itemBreak : String := "\n\n"

/-- Between sections from different places. -/
def sectionBreak : String := "\n\n-----\n\n"

/-- The report on a request for which nothing was found. -/
def nothingFound : String :=
  "I couldn't find any tables to roll. A table starts with a line of dice notation " ++
  "(like `d6 Weather` or `2d6+1 Loot`), followed by one numbered line per outcome " ++
  "(like `1. Sunny` or `3-4. Rain`)."

end Report

namespace Node

open Report

variable {ι : Type}

/-- The reports of the children that have any. -/
def childReports (n : Node ι) : List String :=
  (n.children.map (·.report)).filter (!·.isEmpty)

/-- The reports of the children with a break between them. -/
def joinChildren (n : Node ι) (separator : String) : String :=
  separator.intercalate n.childReports

/-- What a report says about a job that has failed. -/
def notice (n : Node ι) (reason : String) : String :=
  "*Sorry, something went wrong while trying to " ++ n.job.text ++ ": " ++ reason ++ "*"

/-- The report on a job that has failed: a notice, then the reports of its children. -/
def failedBody (n : Node ι) (reason : String) : String :=
  let separator := match n.job with
    | .parseItem _ _ => itemBreak
    | _ => sectionBreak
  let rest := match n.job with
    | .rollTable _ | .evalExpr _ => ""
    | _ => n.joinChildren separator
  if rest.isEmpty then n.notice reason else n.notice reason ++ separator ++ rest

/-- The report on a job that has been done. -/
def doneBody (n : Node ι) : String :=
  match n.job with
  | .request _ =>
    let sections := n.joinChildren sectionBreak
    if sections.isEmpty then nothingFound else sections
  | .parseItem _ label =>
    let outcomes := n.joinChildren itemBreak
    if outcomes.isEmpty then outcomes else "From " ++ label ++ "..." ++ itemBreak ++ outcomes
  | .scanLinks _ _ | .followLink _ => n.joinChildren sectionBreak
  | .rollTable _ =>
    match n.output with
    | some (.outcome o) => o.text
    | _ => ""
  | .evalExpr _ => ""

/-- The report on a job, without the footer of a request. -/
def body (n : Node ι) : String :=
  match n.failure? with
  | some reason => n.failedBody reason
  | none => n.doneBody

/-- How many comments the root of a request left out. -/
def skippedComments (n : Node ι) : Nat := Output.skippedCount n.output

/-- How many links the children of a request left out. -/
def skippedLinks (n : Node ι) : Nat :=
  ((n.children.filter isScan).map fun child => Output.skippedCount child.output).foldr (· + ·) 0

/-- A text of which every line is indented like code. -/
def asCode (text : String) : String :=
  "\n".intercalate ((Text.lines text.toList).map fun line => "    " ++ String.ofList line)

/-- What ends the report on a request: notes on what was left out, the signature and, if that is
wanted, the work log. -/
def footer (n : Node ι) (config : Config) : String :=
  (if n.skippedComments = 0 then ""
    else itemBreak ++ "*" ++ toString n.skippedComments ++
      " more top-level comments weren't checked.*") ++
  (if n.skippedLinks = 0 then ""
    else itemBreak ++ "*" ++ toString n.skippedLinks ++ " more links weren't followed.*") ++
  sectionBreak ++ config.signature ++
  (if config.showWorkLog then itemBreak ++ asCode n.tree else "")

/-- The report on a job. -/
def render (n : Node ι) (config : Config) : String :=
  match n.job with
  | .request _ => n.body ++ n.footer config
  | _ => n.body

end Node

end DiceTables
