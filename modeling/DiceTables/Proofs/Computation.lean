import Mathlib.Data.List.Forall2

/-!
Computations that may fail and computations that may end early. A result `Except ε α` of several
steps is a value exactly when every step gives one. A computation `StateT σ Option α` stands for
work that asks a roller or a source; `Gives x Q` says that it ends from every state and that what it
gives has the property `Q`, so it covers both that there is a result and what it looks like. `Ends x`
only says that there is a result.
-/

namespace DiceTables

variable {ε σ α β γ : Type}

/-! ### Results -/

theorem bind_eq_ok {x : Except ε α} {f : α → Except ε β} {b : β} :
    (x >>= f) = .ok b ↔ ∃ a, x = .ok a ∧ f a = .ok b := by
  cases x <;> simp [bind, Except.bind]

theorem bind_eq_error {x : Except ε α} {f : α → Except ε β} {err : ε} :
    (x >>= f) = .error err ↔ x = .error err ∨ ∃ a, x = .ok a ∧ f a = .error err := by
  cases x <;> simp [bind, Except.bind]

theorem bind_pure_eq_error {x : Except ε α} {f : α → β} {err : ε} :
    (x >>= fun a => pure (f a)) = .error err ↔ x = .error err := by
  cases x <;> simp [bind, Except.bind, pure, Except.pure]

theorem map_eq_ok {x : Except ε α} {f : α → β} {b : β} :
    x.map f = .ok b ↔ ∃ a, x = .ok a ∧ f a = b := by
  cases x <;> simp [Except.map]

theorem mapError_eq_ok {x : Except ε α} {f : ε → γ} {a : α} :
    x.mapError f = .ok a ↔ x = .ok a := by
  cases x <;> simp [Except.mapError]

theorem toOption_eq_some {x : Except ε α} {a : α} : x.toOption = some a ↔ x = .ok a := by
  cases x <;> simp [Except.toOption]

theorem foldlM_cons_eq_ok {f : β → α → Except ε β} {b c : β} {a : α} {l : List α} :
    (a :: l).foldlM f b = .ok c ↔ ∃ b', f b a = .ok b' ∧ l.foldlM f b' = .ok c := by
  rw [List.foldlM_cons, bind_eq_ok]

theorem exists_mem_of_forall₂ {R : α → β → Prop} {xs : List α} {ys : List β}
    (h : List.Forall₂ R xs ys) : ∀ y ∈ ys, ∃ x ∈ xs, R x y := by
  induction h with
  | nil => simp
  | @cons x y xs ys hxy _ ih =>
    intro y' hy'
    rcases List.mem_cons.mp hy' with rfl | hy'
    · exact ⟨x, List.mem_cons_self, hxy⟩
    · obtain ⟨x', hx', hxy'⟩ := ih y' hy'
      exact ⟨x', List.mem_cons_of_mem x hx', hxy'⟩

theorem eq_of_forall₂ {R : α → α → Prop} {xs ys : List α} (h : List.Forall₂ R xs ys)
    (heq : ∀ x ∈ xs, ∀ y, R x y → y = x) : ys = xs := by
  have hpairs : List.Forall₂ (· = ·) xs ys :=
    ((List.forall₂_and_left ..).mpr ⟨heq, h⟩).imp fun x y hxy => (hxy.1 y hxy.2).symm
  rw [List.forall₂_eq_eq_eq] at hpairs
  exact hpairs.symm

theorem findSome?_eq_of_forall₂ {f : α → Option β} {xs ys : List α}
    (h : List.Forall₂ (fun x y => f y = f x) xs ys) : ys.findSome? f = xs.findSome? f := by
  induction h with
  | nil => rfl
  | cons hxy _ ih => rw [List.findSome?_cons, List.findSome?_cons, hxy, ih]

/-- Several steps succeed exactly if each gives one of the results. -/
theorem mapM_eq_ok {f : α → Except ε β} {xs : List α} {ys : List β} :
    xs.mapM f = .ok ys ↔ List.Forall₂ (fun x y => f x = .ok y) xs ys := by
  induction xs generalizing ys with
  | nil =>
    rw [List.mapM_nil, List.forall₂_nil_left_iff]
    constructor
    · rintro ⟨⟩
      rfl
    · rintro rfl
      rfl
  | cons x xs ih =>
    simp only [List.mapM_cons, bind_eq_ok, ih, List.forall₂_cons_left_iff]
    constructor
    · rintro ⟨y, hy, ys', hys', ⟨⟩⟩
      exact ⟨y, ys', hy, hys', rfl⟩
    · rintro ⟨y, ys', hy, hys', rfl⟩
      exact ⟨y, hy, ys', hys', rfl⟩

/-- Several steps fail with the failure of the first step that fails. -/
theorem mapM_eq_error {f : α → Except ε β} {err : ε} : ∀ {xs : List α},
    xs.mapM f = .error err ↔ ∃ before x after, xs = before ++ x :: after ∧
      (∀ x' ∈ before, ∃ y, f x' = .ok y) ∧ f x = .error err
  | [] => by
    constructor
    · rintro ⟨⟩
    · rintro ⟨before, x, after, hxs, -⟩
      exact absurd hxs.symm (List.append_ne_nil_of_right_ne_nil before (List.cons_ne_nil x after))
  | x :: xs => by
    rw [List.mapM_cons, bind_eq_error]
    simp only [bind_pure_eq_error, mapM_eq_error]
    constructor
    · rintro (hx | ⟨y, hy, before, x', after, rfl, hbefore, hx'⟩)
      · exact ⟨[], x, xs, rfl, List.forall_mem_nil _, hx⟩
      · exact ⟨x :: before, x', after, rfl, List.forall_mem_cons.mpr ⟨⟨y, hy⟩, hbefore⟩, hx'⟩
    · rintro ⟨before, x', after, hxs, hbefore, hx'⟩
      rcases List.cons_eq_append_iff.mp hxs with ⟨rfl, hxs⟩ | ⟨before, rfl, rfl⟩
      · obtain ⟨rfl, rfl⟩ := List.cons.inj hxs
        exact .inl hx'
      · obtain ⟨⟨y, hy⟩, hbefore⟩ := List.forall_mem_cons.mp hbefore
        exact .inr ⟨y, hy, before, x', after, rfl, hbefore, hx'⟩

/-- Steps that fail alike fail alike one after the other. -/
theorem mapM_eq_error_congr {f : α → Except ε β} {g : α → Except ε γ}
    (h : ∀ x err, f x = .error err ↔ g x = .error err) {xs : List α} {err : ε} :
    xs.mapM f = .error err ↔ xs.mapM g = .error err := by
  have hok : ∀ x, (∃ y, f x = .ok y) ↔ ∃ z, g x = .ok z := by
    intro x
    have hx := h x
    cases hf : f x <;> cases hg : g x <;> simp_all
  simp only [mapM_eq_error, h, hok]

/-! ### Computations with a state -/

theorem pure_apply (a : α) (s : σ) : (pure a : StateT σ Option α) s = some (a, s) := rfl

theorem bind_eq_some {x : StateT σ Option α} {f : α → StateT σ Option β} {s : σ} {r : β × σ} :
    (x >>= f) s = some r ↔ ∃ a s', x s = some (a, s') ∧ f a s' = some r := by
  show (x s >>= fun p => f p.1 p.2) = some r ↔ _
  rw [Option.bind_eq_bind, Option.bind_eq_some_iff]
  exact Prod.exists

theorem mapM_congr {f g : α → StateT σ Option β} : ∀ {xs : List α}, (∀ x ∈ xs, f x = g x) →
    xs.mapM f = xs.mapM g
  | [], _ => by rw [List.mapM_nil, List.mapM_nil]
  | x :: xs, h => by
    obtain ⟨hx, hxs⟩ := List.forall_mem_cons.mp h
    rw [List.mapM_cons, List.mapM_cons, hx, mapM_congr hxs]

/-- One computation after the other, for each element of a list: each result is that of a run on its
element. -/
theorem forall₂_of_mapM_eq_some {f : α → StateT σ Option β} : ∀ {xs : List α} {ys : List β}
    {s s' : σ}, xs.mapM f s = some (ys, s') →
      List.Forall₂ (fun x y => ∃ s s', f x s = some (y, s')) xs ys
  | [], _, _, _, h => by
    rw [List.mapM_nil] at h
    cases h
    exact .nil
  | x :: xs, _, s, _, h => by
    rw [List.mapM_cons] at h
    obtain ⟨y, s₁, hy, h⟩ := bind_eq_some.mp h
    obtain ⟨ys, s₂, hys, h⟩ := bind_eq_some.mp h
    cases h
    exact .cons ⟨s, s₁, hy⟩ (forall₂_of_mapM_eq_some hys)

/-- From every state the computation ends, and what it gives has a property. -/
def Gives (x : StateT σ Option α) (Q : α → Prop) : Prop :=
  ∀ s, ∃ a s', x s = some (a, s') ∧ Q a

namespace Gives

variable {x : StateT σ Option α} {f : α → StateT σ Option β} {P : α → Prop} {Q : β → Prop}

theorem pure {a : α} (h : P a) : Gives (Pure.pure a : StateT σ Option α) P :=
  fun s => ⟨a, s, rfl, h⟩

theorem mono {P' : α → Prop} (hx : Gives x P) (h : ∀ a, P a → P' a) : Gives x P' := by
  intro s
  obtain ⟨a, s', hs, ha⟩ := hx s
  exact ⟨a, s', hs, h a ha⟩

theorem bind (hx : Gives x P) (hf : ∀ a, P a → Gives (f a) Q) : Gives (x >>= f) Q := by
  intro s
  obtain ⟨a, s', hs, ha⟩ := hx s
  obtain ⟨b, s'', hs', hb⟩ := hf a ha s'
  exact ⟨b, s'', bind_eq_some.mpr ⟨a, s', hs, hs'⟩, hb⟩

/-- What a computation gives is the result of a run of it. -/
theorem run (hx : Gives x P) : Gives x fun a => P a ∧ ∃ s s', x s = some (a, s') := by
  intro s
  obtain ⟨a, s', hs, ha⟩ := hx s
  exact ⟨a, s', hs, ha, s, s', hs⟩

/-- What is known of every result is known of the result of a run. -/
theorem of_eq_some (hx : Gives x P) {a : α} {s s' : σ} (h : x s = some (a, s')) : P a := by
  obtain ⟨b, _, hb, hP⟩ := hx s
  rw [h] at hb
  cases hb
  exact hP

/-- One computation after the other, for each element of a list. -/
theorem mapM_of_mem {R : α → β → Prop} : ∀ {xs : List α}, (∀ a ∈ xs, Gives (f a) (R a)) →
    Gives (xs.mapM f) (List.Forall₂ R xs)
  | [], _ => by rw [List.mapM_nil]; exact .pure .nil
  | a :: xs, h => by
    rw [List.mapM_cons]
    obtain ⟨ha, hxs⟩ := List.forall_mem_cons.mp h
    refine ha.bind fun b hb => (Gives.mapM_of_mem hxs).bind fun bs hbs => ?_
    exact .pure (.cons hb hbs)

theorem mapM {R : α → β → Prop} (h : ∀ a, Gives (f a) (R a)) (xs : List α) :
    Gives (xs.mapM f) (List.Forall₂ R xs) :=
  mapM_of_mem fun a _ => h a

end Gives

/-- From every state the computation ends. -/
abbrev Ends (x : StateT σ Option α) : Prop := Gives x fun _ => True

namespace Ends

variable {x : StateT σ Option α} {f : α → StateT σ Option β}

theorem pure (a : α) : Ends (Pure.pure a : StateT σ Option α) := Gives.pure trivial

theorem bind (hx : Ends x) (hf : ∀ a, Ends (f a)) : Ends (x >>= f) := Gives.bind hx fun a _ => hf a

theorem mapM (h : ∀ a, Ends (f a)) (xs : List α) : Ends (xs.mapM f) :=
  (Gives.mapM (R := fun _ _ => True) h xs).mono fun _ _ => trivial

end Ends

/-- A property of computations that they have as a whole if their steps have it. -/
structure Compositional (P : (α : Type) → StateT σ Option α → Prop) : Prop where
  pure : ∀ {α : Type} (a : α), P α (Pure.pure a)
  bind : ∀ {α β : Type} {x : StateT σ Option α} {f : α → StateT σ Option β},
    P α x → (∀ a, P β (f a)) → P β (x >>= f)

theorem compositional_ends : Compositional fun α (x : StateT σ Option α) => Ends x where
  pure := Ends.pure
  bind := Ends.bind

theorem Compositional.mapM {P : (α : Type) → StateT σ Option α → Prop} (h : Compositional P)
    {α β : Type} {f : α → StateT σ Option β} (hf : ∀ a, P β (f a)) :
    ∀ xs : List α, P (List β) (xs.mapM f)
  | [] => by rw [List.mapM_nil]; exact h.pure []
  | a :: xs => by
    rw [List.mapM_cons]
    exact h.bind (hf a) fun b => h.bind (Compositional.mapM h hf xs) fun bs => h.pure (b :: bs)

end DiceTables
