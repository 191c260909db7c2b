import DiceTables.Proofs.Rolling
import DiceTables.Work.Resolve

/-!
Work comes to an end. A roller that answers every draw lets every roll end, with an outcome or with a
failure, and every answer of the source leads on to less work: from a request to items and links,
from an item to its tables, from a link to one more item. So every request is answered, whatever the
source says.
-/

namespace DiceTables

variable {ι τ σ α : Type}

/-! ### Rollers that answer -/

namespace Roller

/-- A roller that answers whenever it is asked for a die. -/
def Answers (roller : Roller σ) : Prop := ∀ sides, Ends (roller.draw sides)

theorem answers_fixed (value : Nat) : (fixed value).Answers := fun _ => .pure value

variable {roller : Roller σ}

/-! What holds of every draw holds of whatever is rolled: of dice, of expressions, and of the tables
inside an outcome, each of which leaves room for fewer. -/

section Compositional

variable {P : (α : Type) → StateT σ Option α → Prop} (h : Compositional P)
  (hdraw : ∀ sides, P Nat (roller.draw sides))
include h hdraw

theorem of_draws (sides : Nat) : ∀ count, P (List Nat) (roller.draws sides count)
  | 0 => h.pure []
  | count + 1 => h.bind (hdraw sides) fun _ => h.bind (of_draws sides count) fun _ => h.pure _

theorem of_evalTerm : ∀ t : Term, P EvaluatedTerm (roller.evalTerm t)
  | .num _ => h.pure _
  | .dice d => by
    have hroll : P Rolled (roller.roll d) :=
      h.bind (of_draws h hdraw d.sides d.count) fun _ => h.pure _
    exact h.bind hroll fun _ => h.pure _

theorem of_eval (e : Expr) : P Evaluated (roller.eval e) := by
  refine h.bind (of_evalTerm h hdraw e.first) fun first => ?_
  refine h.bind (h.mapM (fun p => ?_) e.rest) fun rest => h.pure _
  exact h.bind (of_evalTerm h hdraw p.2) fun x => h.pure _

theorem of_resolve (t : Table) (roll : Evaluated) : P _ (roller.resolve t roll) := by
  cases hresult : roll.result with
  | error err =>
    rw [roller.resolve_of_error hresult]
    exact h.pure _
  | ok value =>
    rw [roller.resolve_of_ok hresult]
    cases hsub : t.subtable? (t.entryFor value) with
    | none => exact h.pure _
    | some inner =>
      have hroom := Table.room_of_subtable? hsub
      have hinner : P _ (roller.rollTable inner) :=
        h.bind (of_eval h hdraw inner.expr) fun innerRoll => of_resolve inner innerRoll
      exact h.bind hinner fun r => h.pure _
termination_by t.room

end Compositional

namespace Answers

theorem eval (h : roller.Answers) (e : Expr) : Ends (roller.eval e) :=
  of_eval compositional_ends h e

theorem resolve (h : roller.Answers) (t : Table) (roll : Evaluated) :
    Ends (roller.resolve t roll) :=
  of_resolve compositional_ends h t roll

end Answers

end Roller

/-! ### Work -/

namespace Run

theorem ask_eq_some {question : StateM τ α} {asked : τ} {rolled : σ} {r : α × τ × σ} :
    (ask question : Run τ σ α) (asked, rolled) = some r ↔
      ((question.run asked).1, (question.run asked).2, rolled) = r :=
  Option.some_inj

theorem dice_eq_some {rolls : StateT σ Option α} {asked : τ} {rolled : σ} {r : α × τ × σ} :
    (dice rolls : Run τ σ α) (asked, rolled) = some r ↔
      ∃ a rolled', rolls rolled = some (a, rolled') ∧ (a, asked, rolled') = r := by
  show (rolls rolled >>= fun p => some (p.1, asked, p.2)) = some r ↔ _
  rw [Option.bind_eq_bind, Option.bind_eq_some_iff, Prod.exists]
  simp only [Option.some_inj]

theorem ends_ask (question : StateM τ α) : Ends (ask question : Run τ σ α) :=
  fun _ => ⟨_, _, ask_eq_some.mpr rfl, trivial⟩

theorem ends_dice {rolls : StateT σ Option α} (h : Ends rolls) : Ends (dice rolls : Run τ σ α) := by
  rintro ⟨asked, rolled⟩
  obtain ⟨a, rolled', hrolls, -⟩ := h rolled
  exact ⟨a, (asked, rolled'), dice_eq_some.mpr ⟨a, rolled', hrolls, rfl⟩, trivial⟩

end Run

namespace Workshop

variable {w : Workshop ι τ σ}

theorem ends_evaluate (h : w.roller.Answers) (expr : Expr) : Ends (w.evaluate expr) :=
  (Run.ends_dice (h.eval expr)).bind fun _ => .pure _

theorem ends_finishTable (h : w.roller.Answers) (table : Table) (children : List (Node ι)) :
    Ends (w.finishTable table children) := by
  unfold finishTable
  split
  · exact .pure _
  · split
    · exact .pure _
    · next roll _ =>
      refine (Run.ends_dice (h.resolve table roll)).bind fun r => ?_
      cases r with
      | error err => exact .pure _
      | ok o => exact .pure _

theorem ends_rollTable (h : w.roller.Answers) (table : Table) : Ends (w.rollTable table) := by
  refine (ends_evaluate h table.expr).bind fun child => ?_
  exact (ends_finishTable h table _).bind fun result => .pure _

theorem ends_parseItem (h : w.roller.Answers) (item : ι) (label : String) :
    Ends (w.parseItem item label) := by
  refine (Run.ends_ask _).bind fun answer => ?_
  cases answer with
  | error message => exact .pure _
  | ok content =>
    dsimp only
    split
    · exact .pure _
    · exact (Ends.mapM (ends_rollTable h) _).bind fun children => .pure _

theorem ends_followLink (h : w.roller.Answers) (link : Link) : Ends (w.followLink link) := by
  refine (Run.ends_ask _).bind fun answer => ?_
  rcases answer with message | none | item
  · exact .pure _
  · exact .pure _
  · exact (ends_parseItem h item (linkLabel link)).bind fun child => .pure _

theorem ends_scanLinks (h : w.roller.Answers) (item : ι) (label : String) :
    Ends (w.scanLinks item label) := by
  refine (Run.ends_ask _).bind fun answer => ?_
  cases answer with
  | error message => exact .pure _
  | ok content =>
    dsimp only
    split
    · exact .pure _
    · exact (Ends.mapM (ends_followLink h) _).bind fun children => .pure _

variable [DecidableEq ι]

theorem ends_surroundings (item : ι) : Ends (w.surroundings item) := by
  refine (Run.ends_ask _).bind fun answer => ?_
  rcases answer with message | none | post
  · exact .pure _
  · exact .pure _
  · refine (Run.ends_ask _).bind fun answer => ?_
    cases answer with
    | error message => exact .pure _
    | ok comments => exact .pure _

/-- Every request is answered. -/
theorem ends_answer (h : w.roller.Answers) : ∀ request : Request ι, Ends (w.answer request)
  | .message item => by
    refine (ends_parseItem h item _).bind fun own => ?_
    exact (ends_scanLinks h item _).bind fun links => .pure _
  | .mention item => by
    refine (ends_surroundings item).bind fun (places, result) => ?_
    refine (ends_parseItem h item _).bind fun own => ?_
    refine (ends_scanLinks h item _).bind fun links => ?_
    exact (Ends.mapM (fun p => ends_parseItem h p.1 p.2) places).bind fun others => .pure _

end Workshop

end DiceTables
