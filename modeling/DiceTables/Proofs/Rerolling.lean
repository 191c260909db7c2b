import DiceTables.Proofs.DiceValue
import DiceTables.Proofs.Termination

/-!
Rolling again. What a roller makes of an expression still says which expression that was, and has one
roll for each die of each group. So a second roller that rolls it again asks for the same dice in the
same order as it would for the expression itself, and gives the same answer.

The dice that are asked for are read off the record that `Roller.recording` keeps.
-/

namespace DiceTables

variable {σ τ α β : Type}

/-! ### What is left of an expression once it is rolled -/

namespace EvaluatedTerm

/-- The term that was rolled. -/
def term : EvaluatedTerm → Term
  | num n => .num n
  | dice r => .dice r.dice

/-- Each die of the term has its roll. -/
def Complete : EvaluatedTerm → Prop
  | num _ => True
  | dice r => r.rolls.length = r.dice.count

end EvaluatedTerm

namespace Evaluated

/-- The expression that was rolled. -/
def expr (ev : Evaluated) : Expr where
  first := ev.first.term
  rest := ev.rest.map fun (op, t) => (op, t.term)

/-- Each die of the expression has its roll. -/
structure Complete (ev : Evaluated) : Prop where
  first : ev.first.Complete
  rest : ∀ p ∈ ev.rest, p.2.Complete

end Evaluated

namespace Roller

variable {roller : Roller σ} {s s' : σ}

theorem length_draws {sides : Nat} : ∀ {count : Nat} {values : List Nat} {s s' : σ},
    roller.draws sides count s = some (values, s') → values.length = count
  | 0, _, _, _, h => by
    cases h
    rfl
  | count + 1, _, _, _, h => by
    obtain ⟨value, s₁, -, h⟩ := bind_eq_some.mp h
    obtain ⟨values, s₂, hdraws, h⟩ := bind_eq_some.mp h
    cases h
    rw [List.length_cons, length_draws hdraws]

theorem evalTerm_eq_some {t : Term} {x : EvaluatedTerm} (h : roller.evalTerm t s = some (x, s')) :
    x.term = t ∧ x.Complete := by
  cases t with
  | num n =>
    cases h
    exact ⟨rfl, trivial⟩
  | dice d =>
    obtain ⟨r, s₁, hroll, h⟩ := bind_eq_some.mp h
    obtain ⟨values, s₂, hdraws, hroll⟩ := bind_eq_some.mp hroll
    cases hroll
    cases h
    exact ⟨rfl, (Rolled.length_rolls_ofRolls d values).trans (length_draws hdraws)⟩

/-- Rolling an expression leaves it as it is, with a roll for each of its dice. -/
theorem eval_eq_some {e : Expr} {ev : Evaluated} (h : roller.eval e s = some (ev, s')) :
    ev.expr = e ∧ ev.Complete := by
  obtain ⟨first, s₁, hfirst, h⟩ := bind_eq_some.mp h
  obtain ⟨rest, s₂, hrest, h⟩ := bind_eq_some.mp h
  cases h
  have hterms : List.Forall₂ (fun p q => (q.1, q.2.term) = p ∧ q.2.Complete) e.rest rest := by
    refine (forall₂_of_mapM_eq_some hrest).imp fun p q hpq => ?_
    obtain ⟨s₃, s₄, hterm⟩ := hpq
    obtain ⟨x, s₅, hx, hq⟩ := bind_eq_some.mp hterm
    cases hq
    obtain ⟨hx, hcomplete⟩ := evalTerm_eq_some hx
    exact ⟨by rw [hx], hcomplete⟩
  have hrestEq : rest.map (fun (op, t) => (op, t.term)) = e.rest := by
    rw [← List.forall₂_eq_eq_eq, List.forall₂_map_left_iff]
    exact hterms.flip.imp fun q p hqp => hqp.1
  obtain ⟨hfirstEq, hcomplete⟩ := evalTerm_eq_some hfirst
  refine ⟨?_, hcomplete, fun q hq => ?_⟩
  · rw [Evaluated.expr, hfirstEq, hrestEq]
  · obtain ⟨p, -, -, hq⟩ := exists_mem_of_forall₂ hterms q hq
    exact hq

/-! ### Rolling again -/

/-- A term with all its rolls is rolled again like the term itself. -/
theorem rerollTerm_eq (roller : Roller σ) {x : EvaluatedTerm} (h : x.Complete) :
    roller.rerollTerm x = roller.evalTerm x.term := by
  cases x with
  | num n => rfl
  | dice r =>
    have hroll : roller.reroll r = roller.roll r.dice := by rw [reroll, roll, h]
    rw [rerollTerm, EvaluatedTerm.term, evalTerm, hroll]

/-- An expression with all its rolls is rolled again like the expression itself. -/
theorem rerollAll_eq (roller : Roller σ) {ev : Evaluated} (h : ev.Complete) :
    roller.rerollAll ev = roller.eval ev.expr := by
  have hrest : (ev.rest.mapM fun p => do return (p.1, ← roller.rerollTerm p.2)) =
      ev.expr.rest.mapM fun p => do return (p.1, ← roller.evalTerm p.2) := by
    rw [Evaluated.expr, List.mapM_map]
    refine mapM_congr fun p hp => ?_
    show (do return (p.1, ← roller.rerollTerm p.2)) = do return (p.1, ← roller.evalTerm p.2.term)
    rw [rerollTerm_eq roller (h.rest p hp)]
  calc roller.rerollAll ev
      = (do
          let first ← roller.rerollTerm ev.first
          let rest ← ev.rest.mapM fun p => do return (p.1, ← roller.rerollTerm p.2)
          return { first, rest }) := rfl
    _ = (do
          let first ← roller.evalTerm ev.expr.first
          let rest ← ev.expr.rest.mapM fun p => do return (p.1, ← roller.evalTerm p.2)
          return { first, rest }) := by
        rw [hrest, rerollTerm_eq roller h.first]
        rfl
    _ = roller.eval ev.expr := rfl

end Roller

/-! ### The dice that are asked for -/

/-- The sides of each die of a term. -/
def Term.asks : Term → List Nat
  | num _ => []
  | dice d => List.replicate d.count d.sides

/-- The sides of each die of an expression, group after group from left to right. -/
def Expr.asks (e : Expr) : List Nat := e.terms.flatMap Term.asks

/-- The second computation does what the first one does, and puts some dice on the record, the latest
first. -/
def Records (dice : List Nat) (x : StateT σ Option α) (y : StateT (σ × List Nat) Option α) : Prop :=
  ∀ s asked, y (s, asked) = (x s).map fun (a, s') => (a, s', dice.reverse ++ asked)

namespace Records

variable {dice more : List Nat} {x : StateT σ Option α} {y : StateT (σ × List Nat) Option α}
  {f : α → StateT σ Option β} {g : α → StateT (σ × List Nat) Option β}

theorem pure (a : α) : Records [] (Pure.pure a : StateT σ Option α) (Pure.pure a) :=
  fun _ _ => rfl

theorem bind (hx : Records dice x y) (hf : ∀ a, Records more (f a) (g a)) :
    Records (dice ++ more) (x >>= f) (y >>= g) := by
  intro s asked
  show (y (s, asked) >>= fun p => g p.1 p.2) = (x s >>= fun p => f p.1 p.2).map _
  rw [hx s asked]
  cases x s with
  | none => rfl
  | some p =>
    show g p.1 (p.2, dice.reverse ++ asked) = (f p.1 p.2).map _
    rw [hf p.1 p.2, List.reverse_append, List.append_assoc]

/-- One computation after the other, for each element of a list. -/
theorem mapM {count : α → List Nat} (h : ∀ a, Records (count a) (f a) (g a)) : ∀ xs : List α,
    Records (xs.flatMap count) (xs.mapM f) (xs.mapM g)
  | [] => by
    rw [List.mapM_nil, List.mapM_nil]
    exact .pure []
  | a :: xs => by
    rw [List.mapM_cons, List.mapM_cons, List.flatMap_cons]
    refine (h a).bind fun b => ?_
    have hxs := (Records.mapM h xs).bind fun bs => Records.pure (σ := σ) (b :: bs)
    rwa [List.append_nil] at hxs

end Records

namespace Roller

variable (roller : Roller σ)

theorem records_draw (sides : Nat) :
    Records [sides] (roller.draw sides) (roller.recording.draw sides) := by
  intro s asked
  show (roller.draw sides s >>= fun p => some (p.1, p.2, sides :: asked)) = _
  cases roller.draw sides s <;> rfl

theorem records_draws (sides : Nat) : ∀ count,
    Records (List.replicate count sides) (roller.draws sides count)
      (roller.recording.draws sides count)
  | 0 => .pure []
  | count + 1 => by
    have hmore := (records_draw roller sides).bind fun value =>
      (records_draws sides count).bind fun values => .pure (value :: values)
    rwa [List.append_nil] at hmore

theorem records_evalTerm : ∀ t : Term,
    Records t.asks (roller.evalTerm t) (roller.recording.evalTerm t)
  | .num n => .pure (EvaluatedTerm.num n)
  | .dice d => by
    have hroll := (records_draws roller d.sides d.count).bind fun values =>
      .pure (Rolled.ofRolls d values)
    have hterm := hroll.bind fun r => .pure (EvaluatedTerm.dice r)
    rwa [List.append_nil, List.append_nil] at hterm

/-- An expression asks for the dice of its groups from left to right. -/
theorem records_eval (e : Expr) : Records e.asks (roller.eval e) (roller.recording.eval e) := by
  have hrest := Records.mapM (fun p : Op × Term => (records_evalTerm roller p.2).bind fun x =>
    .pure (p.1, x)) e.rest
  have hall := (records_evalTerm roller e.first).bind fun first =>
    hrest.bind fun rest => .pure (Evaluated.mk first rest)
  simp only [List.append_nil] at hall
  rw [Expr.asks, Expr.terms, List.flatMap_cons, List.flatMap_map]
  exact hall

/-- Whatever a first roller gave for an expression, a second one rolls it again as it rolls the
expression itself: it gives the same, leaves the same state behind, and asks for the dice of the
groups from left to right. Everything but the rolls stays what it was. -/
theorem rerollAll_eq_eval (e : Expr) (first : Roller σ) (second : Roller τ) :
    (first.Answers → Ends (first.eval e)) ∧
    ∀ s ev s', first.eval e s = some (ev, s') →
      second.rerollAll ev = second.eval e ∧
      Records e.asks (second.eval e) (second.recording.eval e) ∧
      Records e.asks (second.rerollAll ev) (second.recording.rerollAll ev) ∧
      ev.expr = e ∧ ∀ t ev' t', second.rerollAll ev t = some (ev', t') → ev'.expr = e := by
  refine ⟨fun h => h.eval e, fun s ev s' h => ?_⟩
  obtain ⟨rfl, hcomplete⟩ := eval_eq_some h
  have hreroll := rerollAll_eq second hcomplete
  refine ⟨hreroll, records_eval second _, ?_, rfl, fun t ev' t' hagain => ?_⟩
  · rw [hreroll, rerollAll_eq second.recording hcomplete]
    exact records_eval second _
  · rw [hreroll] at hagain
    exact (eval_eq_some hagain).1

/-- Two dice that showed ones are rolled again at their highest; the three after them stays. -/
theorem rerollAll_eq_eval_highest : ∃ e ev,
    Expr.ofNotation "2d6^1 + 3".toList {} = .ok e ∧ e.asks = [6, 6] ∧
    (fixed 1).eval e () = some (ev, ()) ∧ highest.rerollAll ev = highest.eval e ∧
    Records [6, 6] (highest.rerollAll ev) (highest.recording.rerollAll ev) ∧ ev.expr = e := by
  have hasks : (Expr.ofNotation "2d6^1 + 3".toList {}).toOption.map Expr.asks = some [6, 6] := by
    decide +kernel
  obtain ⟨e, he, hasks⟩ := Option.map_eq_some_iff.mp hasks
  obtain ⟨hends, hagain⟩ := rerollAll_eq_eval e (fixed 1) highest
  obtain ⟨ev, _, hev, -⟩ := hends (answers_fixed 1) ()
  obtain ⟨hreroll, -, hrecords, hexpr, -⟩ := hagain () ev () hev
  rw [hasks] at hrecords
  exact ⟨e, ev, toOption_eq_some.mp he, hasks, hev, hreroll, hrecords, hexpr⟩

end Roller

end DiceTables
