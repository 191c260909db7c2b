import DiceTables.Proofs.FanOut
import Mathlib.Logic.Relation

/-!
Memories as forests. Items can only be added as replies to items that are there already, so the number
of what an item replies to is lower than its own. This is kept by every step (`Ordered.add`,
`Ordered.setUrl`), and everything else follows from it: no way up leads round in a circle, each reply
has one post above it, and what a mention looks at are different items.
-/

namespace DiceTables

namespace Memory

/-- What comes of an empty memory when items are added, on top or as replies to items that are there,
and addresses are set. -/
inductive Built : Memory → Prop
  | empty : Built {}
  | post {m : Memory} (content : Content) : Built m → Built (m.add content none)
  | reply {m : Memory} (content : Content) {parent : Nat} :
    Built m → parent < m.items.length → Built (m.add content (some parent))
  | address {m : Memory} (id : Nat) (url : String) : Built m → Built (m.setUrl id url)

/-- Number of the item that an item replies to. -/
def parent? (m : Memory) (id : Nat) : Option Nat := m.items[id]?.bind (·.parent)

/-- One step up, from a reply to what it replies to. -/
def RepliesTo (m : Memory) (id parent : Nat) : Prop := m.parent? id = some parent

/-- Whether an item stands below another one: it replies to that one, or to an item below it. -/
def Below (m : Memory) : Nat → Nat → Prop := Relation.TransGen m.RepliesTo

/-- Whether replies are to items that were added before them. -/
def Ordered (m : Memory) : Prop := ∀ id parent, m.parent? id = some parent → parent < id

/-- What a memory says of its items, which form a forest. -/
structure Forest (m : Memory) : Prop where
  /-- Replies are to items that are there. -/
  known : ∀ id parent, m.parent? id = some parent → parent < id ∧ id < m.items.length
  /-- No item stands below itself. -/
  acyclic : ∀ id, ¬ m.Below id id
  /-- The way up from an item takes no more steps than its number says, so no limit above that matters. -/
  ends : ∀ id < m.items.length, ∃ top, ∀ steps, id < steps → m.rootFrom id steps = .ok top
  /-- No post is above an item that replies to nothing. -/
  post : ∀ id < m.items.length, m.parent? id = none → m.submission id = .ok none
  /-- The post above a reply is the one item above it that replies to nothing. -/
  reply : ∀ id parent, m.parent? id = some parent → ∃ post, m.submission id = .ok (some post) ∧
    ∀ s, m.Below id s ∧ m.parent? s = none ↔ s = post
  /-- An item is listed once, under the item it replies to, and lists are in ascending order. -/
  children : ∀ id < m.items.length, ∃ l, m.children id = .ok l ∧ l.Pairwise (· < ·) ∧
    ∀ i, l.count i = if m.parent? i = some id then 1 else 0

variable {m : Memory} {id parent : Nat}

/-! ### What each step does to the replies -/

theorem lt_length_of_parent? (h : m.parent? id = some parent) : id < m.items.length := by
  obtain ⟨s, hs, -⟩ := Option.bind_eq_some_iff.mp h
  exact (List.getElem?_eq_some_iff.mp hs).1

theorem parent?_add (m : Memory) (content : Content) (parent : Option Nat) (id : Nat) :
    (m.add content parent).parent? id = if id = m.items.length then parent else m.parent? id := by
  rcases Nat.lt_trichotomy id m.items.length with h | rfl | h
  · simp [parent?, add, List.getElem?_append_left h, h.ne]
  · simp [parent?, add]
  · have hlast : id ≠ m.items.length := by omega
    have hnew : (m.add content parent).items.length ≤ id := by
      rw [add, List.length_append, List.length_singleton]
      omega
    rw [if_neg hlast, parent?, parent?, List.getElem?_eq_none hnew, List.getElem?_eq_none h.le]

@[simp] theorem parent?_setUrl (m : Memory) (changed : Nat) (url : String) (id : Nat) :
    (m.setUrl changed url).parent? id = m.parent? id := by
  rw [parent?, parent?, setUrl, List.getElem?_modify, Option.map_eq_map, Option.bind_map]
  congr 1
  funext s
  split <;> rfl

theorem Ordered.add (h : m.Ordered) {parent : Option Nat} (content : Content)
    (hparent : ∀ p, parent = some p → p < m.items.length) : (m.add content parent).Ordered := by
  intro id p hp
  rw [parent?_add] at hp
  split at hp
  case isTrue hid => exact hid ▸ hparent p hp
  case isFalse => exact h id p hp

theorem Ordered.setUrl (h : m.Ordered) (changed : Nat) (url : String) :
    (m.setUrl changed url).Ordered := by
  intro id p hp
  rw [parent?_setUrl] at hp
  exact h id p hp

theorem Built.ordered (h : m.Built) : m.Ordered := by
  induction h with
  | empty => exact fun _ _ hp => nomatch hp
  | post content _ ih => exact ih.add content fun p hp => nomatch hp
  | reply content _ hlt ih => exact ih.add content fun p hp => Option.some_inj.mp hp ▸ hlt
  | address id url _ ih => exact ih.setUrl id url

/-! ### The way up -/

theorem rootFrom_of_post (hid : id < m.items.length) (h : m.parent? id = none) (steps : Nat) :
    m.rootFrom id (steps + 1) = .ok id := by
  have hparent : (m.items[id]).parent = none := by simpa [parent?, hid] using h
  simp [rootFrom, get, hid, hparent, bind, Except.bind, pure, Except.pure]

theorem rootFrom_of_reply (h : m.parent? id = some parent) (steps : Nat) :
    m.rootFrom id (steps + 1) = m.rootFrom parent steps := by
  have hid := lt_length_of_parent? h
  have hparent : (m.items[id]).parent = some parent := by simpa [parent?, hid] using h
  simp [rootFrom, get, hid, hparent, bind, Except.bind]

theorem Ordered.lt_of_below {below above : Nat} (h : m.Ordered) (hbelow : m.Below below above) :
    above < below := by
  induction hbelow with
  | single hstep => exact h _ _ hstep
  | tail _ hstep ih => exact (h _ _ hstep).trans ih

/-- Every way up ends at an item that replies to nothing, in at most as many steps as the number it
starts from. -/
theorem Ordered.exists_top (h : m.Ordered) : ∀ id < m.items.length, ∃ top,
    Relation.ReflTransGen m.RepliesTo id top ∧ m.parent? top = none ∧
      ∀ steps, id < steps → m.rootFrom id steps = .ok top := by
  intro id
  -- what an item replies to has a lower number, so the induction is on numbers
  induction id using Nat.strong_induction_on with
  | _ id ih =>
    intro hid
    cases hparent : m.parent? id with
    | none =>
      refine ⟨id, .refl, hparent, fun steps hsteps => ?_⟩
      obtain ⟨steps, rfl⟩ := Nat.exists_eq_add_one_of_ne_zero (Nat.ne_zero_of_lt hsteps)
      exact rootFrom_of_post hid hparent steps
    | some parent =>
      have hlt := h id parent hparent
      obtain ⟨top, hup, htop, hroot⟩ := ih parent hlt (hlt.trans hid)
      refine ⟨top, .head hparent hup, htop, fun steps hsteps => ?_⟩
      obtain ⟨steps, rfl⟩ := Nat.exists_eq_add_one_of_ne_zero (Nat.ne_zero_of_lt hsteps)
      rw [rootFrom_of_reply hparent]
      exact hroot steps (by omega)

/-- Two items above the same one that reply to nothing are the same. -/
theorem eq_of_below {s s' : Nat} (h : m.Below id s) (hs : m.parent? s = none)
    (h' : m.Below id s') (hs' : m.parent? s' = none) : s = s' := by
  have hunique : Relator.RightUnique m.RepliesTo := fun _ _ _ hp hq =>
    Option.some_inj.mp (hp.symm.trans hq)
  have hstuck : ∀ {t t' : Nat}, m.parent? t = none → Relation.ReflTransGen m.RepliesTo t t' → t = t' := by
    intro t t' ht hup
    rcases hup.cases_head with heq | ⟨next, hstep, -⟩
    · exact heq
    · exact nomatch ht.symm.trans hstep
  rcases h.to_reflTransGen.total_of_right_unique hunique h'.to_reflTransGen with hup | hup
  · exact hstuck hs hup
  · exact (hstuck hs' hup).symm

/-! ### Posts and comments -/

theorem submission_of_post (hid : id < m.items.length) (h : m.parent? id = none) :
    m.submission id = .ok none := by
  rw [submission, rootFrom_of_post hid h]
  exact congrArg Except.ok (if_pos rfl)

theorem lt_length_of_submission {post : Option Nat} (h : m.submission id = .ok post) :
    id < m.items.length := by
  by_contra hid
  have hget : m.get id = .error (.unknownItem id) := by
    rw [get, List.getElem?_eq_none (by omega)]
  simp [submission, rootFrom, hget, bind, Except.bind] at h

theorem Ordered.exists_submission (h : m.Ordered) (hparent : m.parent? id = some parent) :
    ∃ post, m.submission id = .ok (some post) ∧ m.Below id post ∧ m.parent? post = none := by
  have hid := lt_length_of_parent? hparent
  obtain ⟨top, hup, htop, hroot⟩ := h.exists_top parent ((h id parent hparent).trans hid)
  have hbelow : m.Below id top := .head' hparent hup
  have hlt := h.lt_of_below hbelow
  refine ⟨top, ?_, hbelow, htop⟩
  rw [submission, rootFrom_of_reply hparent, hroot _ ((h id parent hparent).trans hid)]
  exact congrArg Except.ok (if_neg hlt.ne)

theorem Ordered.below_of_submission (h : m.Ordered) {post : Nat}
    (hpost : m.submission id = .ok (some post)) : m.Below id post ∧ m.parent? post = none := by
  cases hparent : m.parent? id with
  | none =>
    rw [submission_of_post (lt_length_of_submission hpost) hparent] at hpost
    cases hpost
  | some parent =>
    obtain ⟨top, htop, hbelow, hnone⟩ := h.exists_submission hparent
    rw [htop] at hpost
    cases hpost
    exact ⟨hbelow, hnone⟩

theorem children_eq_ok {l : List Nat} : m.children id = .ok l ↔ id < m.items.length ∧
    l = (List.range m.items.length).filter fun i => m.parent? i = some id := by
  by_cases hid : id < m.items.length
  · simp [children, get, hid, parent?, bind, Except.bind, pure, Except.pure, eq_comm]
  · simp [children, get, hid, bind, Except.bind]

theorem mem_of_children {l : List Nat} (h : m.children id = .ok l) {i : Nat} :
    i ∈ l ↔ m.parent? i = some id := by
  obtain ⟨-, rfl⟩ := children_eq_ok.mp h
  simp only [List.mem_filter, List.mem_range, decide_eq_true_eq]
  exact and_iff_right_of_imp lt_length_of_parent?

theorem pairwise_of_children {l : List Nat} (h : m.children id = .ok l) : l.Pairwise (· < ·) := by
  obtain ⟨-, rfl⟩ := children_eq_ok.mp h
  exact List.pairwise_lt_range.filter _

theorem nodup_of_children {l : List Nat} (h : m.children id = .ok l) : l.Nodup :=
  (pairwise_of_children h).imp Nat.ne_of_lt

theorem Ordered.forest (h : m.Ordered) : m.Forest where
  known id parent hparent := ⟨h id parent hparent, lt_length_of_parent? hparent⟩
  acyclic _ hbelow := (h.lt_of_below hbelow).false
  ends id hid := by
    obtain ⟨top, -, -, hroot⟩ := h.exists_top id hid
    exact ⟨top, hroot⟩
  post _ := submission_of_post
  reply id parent hparent := by
    obtain ⟨post, hpost, hbelow, htop⟩ := h.exists_submission hparent
    refine ⟨post, hpost, fun s => ⟨fun ⟨hs, hnone⟩ => eq_of_below hs hnone hbelow htop, ?_⟩⟩
    rintro rfl
    exact ⟨hbelow, htop⟩
  children id hid := by
    have hchildren := children_eq_ok.mpr ⟨hid, rfl⟩
    refine ⟨_, hchildren, pairwise_of_children hchildren, fun i => ?_⟩
    rw [(nodup_of_children hchildren).count]
    exact if_congr (mem_of_children hchildren) rfl rfl

end Memory

/-! ### What a mention looks at -/

variable {ι : Type}

/-- The item that a job looks for tables in. -/
def Job.parsed? : Job ι → Option ι
  | .parseItem item _ => some item
  | _ => none

/-- The items that the jobs right under a node look for tables in. -/
def Node.parsedItems (n : Node ι) : List ι := (n.children.map Node.job).filterMap Job.parsed?

theorem Workshop.filterMap_commentJobs (comments : List ι) :
    (commentJobs comments).filterMap Job.parsed? = comments := by
  simp [commentJobs, List.filterMap_map, Function.comp_def, Job.parsed?]

namespace Memory

variable {m : Memory} {id : Nat}

/-- The item itself, the post above it and the other comments on that post are all different. -/
theorem Ordered.nodup_around (h : m.Ordered) {post : Nat} {comments : List Nat} (limit : Nat)
    (hpost : m.submission id = .ok (some post)) (hcomments : m.children post = .ok comments) :
    (id :: post :: (comments.filter (· ≠ id)).take limit).Nodup := by
  obtain ⟨hbelow, htop⟩ := h.below_of_submission hpost
  have hne : id ≠ post := (h.lt_of_below hbelow).ne'
  have hlisted : ((comments.filter (· ≠ id)).take limit).Sublist comments :=
    (List.take_sublist ..).trans List.filter_sublist
  have hid : id ∉ (comments.filter (· ≠ id)).take limit := fun hmem => by
    simpa using List.of_mem_filter (List.mem_of_mem_take hmem)
  have hnotListed : post ∉ (comments.filter (· ≠ id)).take limit := fun hmem => by
    have hparent := (mem_of_children hcomments).mp (hlisted.subset hmem)
    exact nomatch htop.symm.trans hparent
  have hdistinct := (nodup_of_children hcomments).sublist hlisted
  exact List.nodup_cons.mpr ⟨List.not_mem_cons_of_ne_of_not_mem hne hid,
    List.nodup_cons.mpr ⟨hnotListed, hdistinct⟩⟩

variable {σ : Type} {config : Config} {roller : Roller σ} {rolled : σ}

theorem Ordered.nodup_parsedItems (h : m.Ordered) {root : Node Nat} {after : Memory × σ}
    (hrun : (Workshop.mk config source roller).answer (.mention id) (m, rolled) =
      some (root, after)) : root.parsedItems.Nodup := by
  have hlooks := Workshop.looksAround_of_answer hrun
  have hasked : (source.submission id).run m =
      ((m.submission id).mapError MemoryError.message, m) := rfl
  have halone (hjobs : root.children.map Node.job = Workshop.ownJobs id) :
      root.parsedItems.Nodup := by
    rw [Node.parsedItems, hjobs]
    exact List.pairwise_singleton _ id
  rcases hpost : m.submission id with err | _ | post
  all_goals rw [hpost] at hasked
  case error => exact halone (hlooks.notFound _ _ hasked).2.2
  case ok.none => exact halone (hlooks.post _ hasked).2.2
  case ok.some =>
    obtain ⟨hbelow, -⟩ := h.below_of_submission hpost
    have hlt := (h.lt_of_below hbelow).trans (lt_length_of_submission hpost)
    have hcomments := children_eq_ok.mpr ⟨hlt, rfl⟩
    have hlisting : (source.comments post).run m =
        ((m.children post).mapError MemoryError.message, m) := rfl
    rw [hcomments] at hlisting
    obtain ⟨-, hfans⟩ := hlooks.listed _ _ _ _ hasked hlisting
    rw [Node.parsedItems, hfans.jobs_eq, List.filterMap_append, Workshop.filterMap_commentJobs]
    exact h.nodup_around _ hpost hcomments

/-- The items of a memory form a forest, however it was built: replies are to earlier items, the post
above a reply is the one item above it that replies to nothing, and comments are listed once, in order,
under what they reply to. So a mention of an item looks for tables in items that are all different. -/
theorem Built.forest_and_distinct (h : m.Built) (config : Config) (roller : Roller σ) :
    m.Forest ∧ ∀ id rolled,
      (roller.Answers → ∃ root after,
        (Workshop.mk config source roller).answer (.mention id) (m, rolled) = some (root, after)) ∧
      ∀ root after,
        (Workshop.mk config source roller).answer (.mention id) (m, rolled) = some (root, after) →
          root.parsedItems.Nodup := by
  refine ⟨h.ordered.forest, fun id rolled => ⟨fun hanswers => ?_, fun root after hrun => ?_⟩⟩
  · have hends := Workshop.ends_answer (w := Workshop.mk config source roller) hanswers (.mention id)
    obtain ⟨root, after, hrun, -⟩ := hends (m, rolled)
    exact ⟨root, after, hrun⟩
  · exact h.ordered.nodup_parsedItems hrun

/-- A comment on a post, a reply to that comment, and a comment on another post: a mention in the reply
leads to the post and to the comment on it. -/
theorem thread_forest_and_distinct :
    let text : String → Content := fun text => { text }
    let posts := (add {} (text "What happens next?") none).add (text "d2 Fate\n1. Luck\n2. Loss") none
    let thread := ((posts.setUrl 1 "https://example.com/fate").add (text "d6 decides") (some 0)).add
      (text "See https://example.com/fate") (some 2)
    let m := thread.add (text "Fair enough") (some 1)
    let w : Workshop Nat Memory Unit := Workshop.mk {} source .highest
    m.Built ∧ m.Forest ∧ m.Below 3 0 ∧ ∃ root, w.answer (.mention 3) (m, ()) = some (root, m, ()) ∧
      root.parsedItems = [3, 0, 2] ∧ root.parsedItems.Nodup := by
  intro text posts thread m w
  have hposts : posts.Built := .post _ (.post _ .empty)
  have hthread : thread.Built :=
    .reply _ (.reply _ (.address 1 "https://example.com/fate" hposts) (by decide)) (by decide)
  have hbuilt : m.Built := .reply _ hthread (by decide)
  obtain ⟨hforest, hmentions⟩ := hbuilt.forest_and_distinct {} (.highest : Roller Unit)
  have hbelow : m.Below 3 0 := .tail (.single (show m.parent? 3 = some 2 from rfl))
    (show m.parent? 2 = some 0 from rfl)
  have hanswers : w.roller.Answers := fun _ => .pure _
  obtain ⟨hends, hdistinct⟩ := hmentions 3 ()
  obtain ⟨root, after, hrun⟩ := hends hanswers
  have hfacts : (w.answer (.mention 3) (m, ())).any (fun r =>
      r.2 = (m, ()) ∧ r.1.parsedItems = [3, 0, 2]) = true := by decide +kernel
  rw [hrun, Option.any_some] at hfacts
  obtain ⟨rfl, hitems⟩ := of_decide_eq_true hfacts
  exact ⟨hbuilt, hforest, hbelow, root, hrun, hitems, hdistinct root _ hrun⟩

end Memory

end DiceTables
