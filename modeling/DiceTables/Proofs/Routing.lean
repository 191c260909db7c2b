import DiceTables.CommandLine
import DiceTables.Proofs.Excerpts
import DiceTables.Proofs.HeaderNotation
import DiceTables.Proofs.Replay

/-!
What the command line takes for an expression and what for a text. It goes by the alphabet alone:
only a character that no expression has makes the input a text. Whether there are tables in it is
not asked, so a table that is written in the alphabet of dice notation is taken for an expression,
with its lines put together. Once the input is a text, every table in it is rolled.

The characters of descriptions and outcomes all come from the input, so one such character in any of
these is enough.
-/

namespace DiceTables

open Text Scanner Notation

variable {ι τ σ α β : Type}

/-! ### Characters of the tables in a text -/

theorem Text.mem_of_mem_lines (s : List Char) : ∀ l ∈ lines s, l ⊆ s := by
  fun_induction lines s with
  | case1 => simp
  | case2 rest ih =>
    exact List.forall_mem_cons.mpr ⟨List.nil_subset _, fun l hl =>
      List.subset_cons_of_subset _ (ih l hl)⟩
  | case3 rest ih =>
    exact List.forall_mem_cons.mpr ⟨List.nil_subset _, fun l hl =>
      List.subset_cons_of_subset _ (List.subset_cons_of_subset _ (ih l hl))⟩
  | case4 c rest hc hreturn hnil ih => simp
  | case5 c rest hc hreturn line more hlines ih =>
    rw [hlines] at ih
    obtain ⟨hline, hmore⟩ := List.forall_mem_cons.mp ih
    exact List.forall_mem_cons.mpr ⟨List.cons_subset_cons c hline, fun l hl =>
      List.subset_cons_of_subset c (hmore l hl)⟩

theorem Text.subset_of_mem_solidLines {s l : List Char} (h : l ∈ solidLines s) : l ⊆ s := by
  obtain ⟨hmem, -⟩ := List.mem_filter.mp h
  obtain ⟨line, hline, rfl⟩ := List.mem_map.mp hmem
  exact fun c hc => mem_of_mem_lines s line hline (mem_of_mem_trimWhile hc)

namespace Block

/-- The lines of a block are lines of the text. -/
theorem lines_of_mem_locateFrom : ∀ {ls : List (List Char)} {passed : Nat} {b : Block},
    b ∈ locateFrom passed ls → b.header ∈ ls ∧ b.body ⊆ ls
  | line :: rest, passed, b, h => by
    have hlater : b ∈ locateFrom (passed + 1) rest →
        b.header ∈ line :: rest ∧ b.body ⊆ line :: rest := by
      intro h
      obtain ⟨hheader, hbody⟩ := lines_of_mem_locateFrom h
      exact ⟨List.mem_cons_of_mem line hheader, List.subset_cons_of_subset line hbody⟩
    rw [locateFrom] at h
    split at h
    · rcases List.mem_cons.mp h with rfl | h
      · refine ⟨List.mem_cons_self, fun l hl => List.mem_cons_of_mem line ?_⟩
        have hl : l ∈ rest.takeWhile (!Line.isHeader ·) := by
          rw [← List.mem_reverse]
          exact (List.dropWhile_suffix _).subset (List.mem_reverse.mp hl)
        exact (List.takeWhile_prefix _).subset hl
      · exact hlater h
    · exact hlater h

end Block

/-- A description or the text of an outcome has the character. -/
def Table.Mentions (t : Table) (c : Char) : Prop :=
  c ∈ t.description.toList ∨ ∃ e ∈ t.entries, c ∈ e.text.toList

/-- What a table of a text mentions is in the text. -/
theorem Table.mem_of_mentions {s : List Char} {limits : Limits} {t : Table} (h : t ∈ allIn s limits)
    {c : Char} (hc : t.Mentions c) : c ∈ s := by
  obtain ⟨b, hb, hbuilt⟩ := List.mem_filterMap.mp h
  obtain ⟨hheader, hbody⟩ := Block.lines_of_mem_locateFrom hb
  obtain ⟨parts, hparts, -, hdescription, hentries, -, -⟩ :=
    build_eq_ok (toOption_eq_some.mp hbuilt)
  rcases hc with hc | ⟨e, he, hc⟩
  · rw [hdescription, String.toList_ofList] at hc
    exact subset_of_mem_solidLines hheader ((Line.description_of_header? hparts).1 hc)
  · rw [hentries] at he
    obtain ⟨⟨line, hline, hsubset⟩, -⟩ := Entry.text_of_mem_ofLines he
    exact subset_of_mem_solidLines (hbody hline) (hsubset hc)

/-! ### The alphabet decides -/

namespace CommandLine

/-- A character that no expression has, not even one in parentheses. -/
def IsForeign (c : Char) : Prop := isBlank c = false ∧ isParenthesis c = false ∧ c ∉ alphabet

instance (c : Char) : Decidable (IsForeign c) := inferInstanceAs (Decidable (_ ∧ _))

theorem strangers_eq_nil_iff_not_foreign {s : List Char} (h : s.any isParenthesis = false) :
    strangers s = [] ↔ ¬∃ c ∈ s, IsForeign c := by
  rw [strangers_eq_nil_iff]
  constructor
  · rintro hall ⟨c, hc, hblank, -, halphabet⟩
    rcases hall c hc with hblank' | halphabet'
    · rw [hblank] at hblank'
      cases hblank'
    · exact halphabet halphabet'
  · intro hnone c hc
    by_contra hstranger
    obtain ⟨hblank, halphabet⟩ := not_or.mp hstranger
    have hparenthesis := Bool.of_not_eq_true (List.any_eq_false.mp h c hc)
    exact hnone ⟨c, hc, Bool.of_not_eq_true hblank, hparenthesis, halphabet⟩

/-- Without parentheses the alphabet is refused just for a foreign character. -/
theorem checkAlphabet_of_noParenthesis {s : List Char} (h : s.any isParenthesis = false) :
    ((∃ c ∈ s, IsForeign c) → ∃ found, checkAlphabet s = .error (.illegalCharacters found)) ∧
      ((¬∃ c ∈ s, IsForeign c) → checkAlphabet s = .ok ()) := by
  rw [← strangers_eq_nil_iff_not_foreign h]
  constructor
  · intro hforeign
    have hne : strangers s ≠ [] := fun hnil =>
      (strangers_eq_nil_iff_not_foreign h).mp hnil hforeign
    exact ⟨String.ofList (strangers s), by simp [checkAlphabet, h, hne]⟩
  · intro hnil
    simp [checkAlphabet, h, hnil]

/-- Parentheses are not foreign, so leaving them out makes no difference. -/
theorem exists_foreign_filter (input : List Char) :
    (∃ c ∈ input.filter (!isParenthesis ·), IsForeign c) ↔ ∃ c ∈ input, IsForeign c := by
  refine exists_congr fun c => ?_
  rw [List.mem_filter, and_assoc]
  refine and_congr_right fun _ => and_iff_right_of_imp fun hc => ?_
  rw [hc.2.1]
  rfl

/-- What the input is taken for depends on its characters only. -/
theorem isExpression_eq (input : List Char) [Decidable (∃ c ∈ input, IsForeign c)] :
    isExpression input = if ∃ c ∈ input, IsForeign c then .ok false
      else if input.any isParenthesis then .error .grouping else .ok true := by
  by_cases hparenthesis : input.any isParenthesis = true
  · have hcheck : checkAlphabet input = .error .grouping := if_pos hparenthesis
    have hkept : (input.filter (!isParenthesis ·)).any isParenthesis = false := by
      simp [List.any_filter]
    obtain ⟨hrefused, haccepted⟩ := checkAlphabet_of_noParenthesis hkept
    rw [exists_foreign_filter] at hrefused haccepted
    rw [isExpression, hcheck, if_pos hparenthesis]
    by_cases hforeign : ∃ c ∈ input, IsForeign c
    · obtain ⟨found, herror⟩ := hrefused hforeign
      simp only [herror, if_pos hforeign]
    · simp only [haccepted hforeign, if_neg hforeign]
  · obtain ⟨hrefused, haccepted⟩ :=
      checkAlphabet_of_noParenthesis (Bool.of_not_eq_true hparenthesis)
    rw [isExpression, if_neg hparenthesis]
    by_cases hforeign : ∃ c ∈ input, IsForeign c
    · obtain ⟨found, herror⟩ := hrefused hforeign
      rw [herror, if_pos hforeign]
    · rw [haccepted hforeign, if_neg hforeign]

end CommandLine

/-! ### Work over a source that stays as it is -/

/-- Whatever the state of the roller, the work ends, what it gives has a property, and the source is
left as it was. -/
def GivesOver (asked : τ) (x : Run τ σ α) (Q : α → Prop) : Prop :=
  ∀ rolled, ∃ a rolled', x (asked, rolled) = some (a, asked, rolled') ∧ Q a

namespace GivesOver

variable {asked : τ} {x : Run τ σ α} {f : α → Run τ σ β} {P : α → Prop} {Q : β → Prop}

theorem pure {a : α} (h : P a) : GivesOver asked (Pure.pure a : Run τ σ α) P :=
  fun rolled => ⟨a, rolled, rfl, h⟩

theorem bind (hx : GivesOver asked x P) (hf : ∀ a, P a → GivesOver asked (f a) Q) :
    GivesOver asked (x >>= f) Q := by
  intro rolled
  obtain ⟨a, middle, hrunx, ha⟩ := hx rolled
  obtain ⟨b, rolled', hrunf, hb⟩ := hf a ha middle
  exact ⟨b, rolled', bind_eq_some.mpr ⟨a, (asked, middle), hrunx, hrunf⟩, hb⟩

/-- The answer of a source that is only asked. -/
theorem ask {question : StateM τ α} {a : α} (h : question.run asked = (a, asked)) :
    GivesOver asked (Run.ask question : Run τ σ α) (· = a) := by
  intro rolled
  exact ⟨a, rolled, Run.ask_eq_some.mpr (by rw [h]), rfl⟩

theorem dice {rolls : StateT σ Option α} (h : Gives rolls P) :
    GivesOver asked (Run.dice rolls) P := by
  intro rolled
  obtain ⟨a, rolled', hrolls, ha⟩ := h rolled
  exact ⟨a, rolled', Run.dice_eq_some.mpr ⟨a, rolled', hrolls, rfl⟩, ha⟩

/-- One piece of work after the other, for each element of a list. -/
theorem mapM {R : α → β → Prop} (h : ∀ a, GivesOver asked (f a) (R a)) :
    ∀ xs : List α, GivesOver asked (xs.mapM f) (List.Forall₂ R xs)
  | [] => by
    rw [List.mapM_nil]
    exact .pure .nil
  | a :: xs => by
    rw [List.mapM_cons]
    refine (h a).bind fun b hb => (GivesOver.mapM h xs).bind fun bs hbs => ?_
    exact .pure (.cons hb hbs)

end GivesOver

/-- Nodes for tables, one after the other, roll these tables. -/
theorem Node.map_fst_tableRolls {tables : List Table} {nodes : List (Node ι)}
    (h : List.Forall₂ (fun t n => n.tableRolls = [(t, n)]) tables nodes) :
    (nodes.flatMap tableRolls).map Prod.fst = tables := by
  induction h with
  | nil => rfl
  | cons hfirst _ ih => rw [List.flatMap_cons, hfirst, List.map_append, ih]; rfl

namespace Workshop

variable {w : Workshop ι τ σ} {asked : τ}

theorem givesOver_evaluate (h : w.roller.Answers) (expr : Expr) :
    GivesOver asked (w.evaluate expr) fun n => n.tableRolls = [] := by
  refine (GivesOver.dice (h.eval expr)).bind fun roll _ => .pure ?_
  rw [tableRolls_close]
  rfl

theorem givesOver_finishTable (h : w.roller.Answers) (table : Table) (children : List (Node ι)) :
    GivesOver asked (w.finishTable table children) fun _ => True := by
  unfold finishTable
  split
  · exact .pure trivial
  · split
    · exact .pure trivial
    · next roll _ =>
      refine (GivesOver.dice (h.resolve table roll)).bind fun r _ => ?_
      cases r with
      | error err => exact .pure trivial
      | ok o => exact .pure trivial

/-- Rolling a table makes one node for it. -/
theorem givesOver_rollTable (h : w.roller.Answers) (table : Table) :
    GivesOver asked (w.rollTable table) fun n => n.tableRolls = [(table, n)] := by
  refine (givesOver_evaluate h table.expr).bind fun child hchild => ?_
  refine (givesOver_finishTable h table [child]).bind fun result _ => .pure ?_
  rw [tableRolls_close, List.flatMap_singleton, hchild]
  rfl

/-- The tables of an item are rolled, all of them and in order. -/
theorem givesOver_parseItem (h : w.roller.Answers) {item : ι} {content : Content} (label : String)
    (hcontent : (w.source.content item).run asked = (.ok content, asked)) :
    GivesOver asked (w.parseItem item label) fun n =>
      n.tableRolls.map Prod.fst = Table.allIn content.text.toList w.config.limits := by
  refine (GivesOver.ask hcontent).bind ?_
  rintro _ rfl
  dsimp only
  split
  · next hnil =>
    refine .pure ?_
    rw [tableRolls_close, hnil]
    rfl
  · refine (GivesOver.mapM (givesOver_rollTable h) _).bind fun children hchildren => .pure ?_
    rw [tableRolls_close]
    exact Node.map_fst_tableRolls hchildren

/-- Links that lead nowhere are refused, and no table is rolled for them. -/
theorem givesOver_scanLinks {item : ι} {content : Content} (label : String)
    (hcontent : (w.source.content item).run asked = (.ok content, asked))
    (htarget : ∀ href, (w.source.target href).run asked = (.ok none, asked)) :
    GivesOver asked (w.scanLinks item label) fun n => n.tableRolls = [] := by
  have hlink : ∀ link, GivesOver asked (w.followLink link) fun n => n.tableRolls = [] := by
    intro link
    refine (GivesOver.ask (htarget link.href)).bind ?_
    rintro _ rfl
    refine .pure ?_
    rw [tableRolls_close]
    rfl
  refine (GivesOver.ask hcontent).bind ?_
  rintro _ rfl
  dsimp only
  split
  · refine .pure ?_
    rw [tableRolls_close]
    rfl
  · refine (GivesOver.mapM hlink _).bind fun children hchildren => .pure ?_
    have hnone : children.flatMap Node.tableRolls = [] := by
      rw [List.flatMap_eq_nil_iff]
      intro n hn
      obtain ⟨link, -, hrolls⟩ := exists_mem_of_forall₂ hchildren n hn
      exact hrolls
    rw [tableRolls_close, hnone]
    rfl

/-- A message whose links lead nowhere has its own tables rolled, and no others. -/
theorem givesOver_message [DecidableEq ι] (h : w.roller.Answers) {item : ι} {content : Content}
    (hcontent : (w.source.content item).run asked = (.ok content, asked))
    (htarget : ∀ href, (w.source.target href).run asked = (.ok none, asked)) :
    GivesOver asked (w.answer (.message item)) fun n =>
      n.tableRolls.map Prod.fst = Table.allIn content.text.toList w.config.limits := by
  refine (givesOver_parseItem h _ hcontent).bind fun own hown => ?_
  refine (givesOver_scanLinks _ hcontent htarget).bind fun links hlinks => .pure ?_
  rw [tableRolls_close, List.flatMap_cons, List.flatMap_singleton, hlinks, List.append_nil]
  exact hown

end Workshop

namespace CommandLine

/-- A text is answered like a message that is the only item of a memory: what is printed is the report
of the work on it, and all its tables are rolled, in order. -/
theorem rollText_eq_some (config : Config) {roller : Roller σ} (h : roller.Answers)
    (input : String) (s : σ) :
    let memory := Memory.add {} { text := input } none
    ∃ root s', (Workshop.mk config Memory.source roller).answer (.message 0) (memory, s) =
        some (root, memory, s') ∧
      rollText config roller input.toList s = some (.success root.report, s') ∧
      root.tableRolls.map Prod.fst = Table.allIn input.toList config.limits := by
  intro memory
  let w : Workshop Nat Memory σ := { config, source := Memory.source, roller }
  have hcontent : (w.source.content 0).run memory = (.ok { text := input }, memory) := rfl
  have htarget : ∀ href, (w.source.target href).run memory = (.ok none, memory) := by
    intro href
    show (Except.ok (memory.find? href), memory) = _
    simp [memory, Memory.add, Memory.find?]
  obtain ⟨root, s', hrun, hrolls⟩ := Workshop.givesOver_message h hcontent htarget s
  refine ⟨root, s', hrun, ?_, hrolls⟩
  rw [rollText, String.ofList_toList]
  show (w.answer (.message 0) (memory, s) >>= _) = _
  rw [hrun]
  rfl

/-- What the command line takes for a text is decided by the alphabet: some character has to be one
that no expression has. It is if one of the tables in the input mentions such a character, in its
description or in an outcome. A text is answered like a message that is the only item of a memory:
the command prints the report of the work on it, in which all tables of the text are rolled, in order.
Any other input is taken for an expression, whatever tables there are in it, and refused if it has
parentheses. -/
theorem text_iff_foreign {lookup : String → Option String} {config : Config}
    (hconfig : Config.ofLookup lookup = .ok config) (input : String) :
    (isExpression input.toList = .ok false ↔ ∃ c ∈ input.toList, IsForeign c) ∧
    ((∃ t ∈ Table.allIn input.toList config.limits, ∃ c, IsForeign c ∧ t.Mentions c) →
      isExpression input.toList = .ok false) ∧
    (isExpression input.toList = .ok false → ∀ roller : Roller σ, roller.Answers → ∀ s,
      let memory := Memory.add {} { text := input } none
      ∃ root s', (Workshop.mk config Memory.source roller).answer (.message 0) (memory, s) =
          some (root, memory, s') ∧
        reply lookup roller input s = some (.success root.report, s') ∧
        root.tableRolls.map Prod.fst = Table.allIn input.toList config.limits) ∧
    ((¬∃ c ∈ input.toList, IsForeign c) → isExpression input.toList =
      if input.toList.any isParenthesis then .error .grouping else .ok true) := by
  have hiff : isExpression input.toList = .ok false ↔ ∃ c ∈ input.toList, IsForeign c := by
    rw [isExpression_eq]
    split
    · next hforeign => simp [hforeign]
    · next hforeign =>
      simp only [hforeign, iff_false]
      split <;> simp
  refine ⟨hiff, ?_, fun htext roller hanswers s => ?_, fun hforeign => ?_⟩
  · rintro ⟨t, ht, c, hc, hmentions⟩
    exact hiff.mpr ⟨c, Table.mem_of_mentions ht hmentions, hc⟩
  · rw [reply, hconfig]
    dsimp only
    rw [htext]
    exact rollText_eq_some config hanswers input s
  · rw [isExpression_eq, if_neg hforeign]

/-- A coin is a table of a text. -/
theorem text_iff_foreign_coin :
    let input := "d2 Coin\n1. Heads\n2. Tails"
    let memory := Memory.add {} { text := input } none
    Config.ofLookup (fun _ => none) = .ok {} ∧ isExpression input.toList = .ok false ∧
    ∃ root, (Workshop.mk {} Memory.source Roller.highest).answer (.message 0) (memory, ()) =
        some (root, memory, ()) ∧
      reply (fun _ => none) Roller.highest input () = some (.success root.report, ()) ∧
      root.tableRolls.map Prod.fst = Table.allIn input.toList {} ∧
      (Table.allIn input.toList {}).length = 1 := by
  intro input memory
  have hconfig : Config.ofLookup (fun _ => none) = .ok {} := rfl
  obtain ⟨hiff, -, hrolled, -⟩ := text_iff_foreign (σ := Unit) hconfig input
  have htext := hiff.mpr ⟨'H', by decide, by decide⟩
  obtain ⟨root, ⟨⟩, hanswer, hreply, hrolls⟩ := hrolled htext Roller.highest (fun _ => .pure _) ()
  exact ⟨hconfig, htext, root, hanswer, hreply, hrolls, by decide +kernel⟩

/-- A table without any words: its lines are put together and rolled as `d2*0*d20000`, a die that is
too big. -/
theorem glued_table_is_expression : Config.ofLookup (fun _ => none) = .ok {} ∧
    (Table.allIn "d2*0*d2\n0000".toList {}).length = 1 ∧
    isExpression "d2*0*d2\n0000".toList = .ok true ∧
    (reply (fun _ => none) Roller.highest "d2*0*d2\n0000" ()).map (fun r => (r.1.status, r.1.err)) =
      some (1, some "Error: d20000 is bigger than the maximum die size of 1000\n") := by
  refine ⟨rfl, ?_, ?_, ?_⟩
  · decide +kernel
  · decide +kernel
  · decide +kernel

end CommandLine

end DiceTables
