import GrammarNetwork.Proofs.Runs
import GrammarNetwork.Proofs.Stamps

/-! Spelling: the words of the runs through the network of a plan are those of the grammar, with every action that is
run where the grammar says so. -/

namespace GrammarNetwork

/-- The action in the table that a transition with this label runs. -/
def Network.action? (network : Network) (label : Label) : Option LexerAction :=
  label.actionIndex?.bind fun index => network.lexerActions[index]?

/-- The action that an element or a command of a lexer comes to. A parser has no table of actions. -/
def Plan.action? (plan : Plan) (item : Item) : Option LexerAction :=
  match plan.kind with
  | .parser => none
  | .lexer => (plan.deeds.find? fun deed => deed.1.owner == item.owner).map Prod.snd

namespace Network

/-- The action that runs where this state is left. -/
def actionAt? (network : Network) (id : StateId) : Option LexerAction := do
  let state ← network.state? id
  let transition ← state.transitions.head?
  network.action? transition.label

section Holding

variable {network : Network} {vocabulary : IntervalSet} {meanings : Meanings} {rule : Option Nat}

theorem action?_edge (network : Network) (starts : Array StateId) (label : Label) (target : StateId) :
    network.action? (label.edge starts target).label = network.action? label := by
  cases label <;> rfl

theorem actionAt?_of_single {id : StateId} {state : State} (found : network.state? id = some state)
    {transition : Transition} (only : state.transitions = [transition]) :
    network.actionAt? id = network.action? transition.label := by
  simp [actionAt?, found, only]

mutual

/-- In a network a trail has the same words by its states and by its labels. -/
theorem words_trail : ∀ (trail : Trail) {next : StateId},
    network.Holds (trail.layout network.ruleStarts rule (some next)) →
    trail.words vocabulary meanings (fun id _ => network.actionAt? id) =
      trail.words vocabulary meanings fun _ => network.action?
  | .done, _, _ => rfl
  | .step source label rest, next, holds => by
      obtain ⟨target, entered⟩ := rest.enter_some next
      simp only [Trail.layout, holds_cons, entered] at holds
      have same := actionAt?_of_single holds.1 rfl
      rw [action?_edge] at same
      rw [Trail.words, Trail.words, words_trail rest holds.2, same]
  | .gap _ _, _, _ => rfl
  | .block frame start exit ways rest, next, holds => by
      simp only [Trail.layout, holds_append] at holds
      rw [Trail.words, Trail.words, words_ways ways holds.2.1, words_trail rest holds.2.2]

theorem words_ways : ∀ (ways : Ways) {exit : StateId},
    network.Holds (ways.layout network.ruleStarts rule exit) →
    ways.words vocabulary meanings (fun id _ => network.actionAt? id) =
      ways.words vocabulary meanings fun _ => network.action?
  | .none, _, _ => rfl
  | .more way rest, exit, holds => by
      simp only [Ways.layout, holds_append] at holds
      rw [Ways.words, Ways.words, words_trail way holds.1, words_ways rest holds.2]

end

end Holding

end Network

/-- Only one state is marked for an item. -/
theorem Item.MarkedAt.unique {item : Item} {construction : Construction} {id other : StateId}
    (first : item.MarkedAt construction id) (second : item.MarkedAt construction other)
    (once : construction.owners.count item.owner ≤ 1) : id = other := by
  cases item with
  | element site element =>
      exact Option.some.inj ((lookup_elementStates once first).symm.trans (lookup_elementStates once second))
  | command site command =>
      exact Option.some.inj ((lookup_commandStates once first).symm.trans (lookup_commandStates once second))

/-- The mark is one of the place. -/
theorem Item.MarkedAt.of_owner {item other : Item} {construction : Construction} {id : StateId}
    (marked : item.MarkedAt construction id) (same : other.owner = item.owner) : other.MarkedAt construction id := by
  cases item <;> cases other <;> cases same <;> exact marked

namespace Build.Completion

variable {plan : Plan} {journal : Journal} {network : Network} {after : Construction} {others : Heap}
  {parts : List RulePart}

/-- The state that is marked for what is run runs just that. -/
theorem actionAt?_of_deed (completion : Completion plan journal network after others parts)
    (lexer : plan.kind = .lexer) (ends : plan.run journal = .ok network after) {deed : Deed} (done : deed ∈ plan.deeds)
    {id : StateId} (marked : deed.1.MarkedAt after id) : network.actionAt? id = some deed.2 := by
  obtain ⟨rfl, table, ledger⟩ := Plan.ledger_of_run lexer ends
  obtain ⟨run, enacted, performs⟩ := ledger.exists_enactment done
  obtain ⟨state, found, among⟩ := Network.mem_enactments.mp enacted
  obtain ⟨_, _, runs, transition, leaves, labelled⟩ := State.mem_enactments.mp among
  obtain ⟨index, label, known⟩ := performs.runs
  obtain rfl := marked.unique performs.marked (Plan.once_of_run ends _)
  rw [Network.actionAt?_of_single found (completion.runs_alone lexer found leaves (labelled ▸ runs)), Network.action?,
    labelled, label, table]
  exact known

/-- The states of a lexer run what the elements and commands come to for which they are marked. -/
theorem named (completion : Completion plan journal network after others parts) (lexer : plan.kind = .lexer)
    (ends : plan.run journal = .ok network after) {items : List Item} (within : items ⊆ plan.grammar.items) :
    plan.Named after items (fun id _ => network.actionAt? id) plan.action? := by
  intro item listed id marked runs _
  obtain ⟨errand, runs⟩ := Option.isSome_iff_exists.mp runs
  obtain ⟨action, done⟩ := Plan.exists_deed (within listed) runs
  rw [Plan.action?, lexer]
  cases sought : plan.deeds.find? fun deed => deed.1.owner == item.owner with
  | none => exact absurd (List.find?_eq_none.mp sought _ done) (by simp)
  | some deed =>
      have same : deed.1.owner = item.owner := by simpa using List.find?_some sought
      exact completion.actionAt?_of_deed lexer ends (List.mem_of_find?_eq_some sought) (marked.of_owner same)

end Build.Completion

theorem Plan.lexerActions_of_parser {plan : Plan} {journal : Journal} {network : Network} {after : Construction}
    (parser : plan.kind = .parser) (ends : plan.run journal = .ok network after) : network.lexerActions = #[] := by
  have meets : Build.Meets (Build.parserNetwork plan) (plan.start journal) _ _ := Build.sameTables_parserNetwork
  have built : Build.parserNetwork plan (plan.start journal) = .ok network after := by
    simpa [Plan.run, Build.complete, parser, EStateM.run] using ends
  rw [Build.Meets, built] at meets
  exact meets.actions

/-- The body of a rule has the words of the rule, with the actions of the network and those of the grammar. -/
theorem Build.Completion.words_body {plan : Plan} {journal : Journal} {network : Network} {after : Construction}
    {others : Heap} {parts : List RulePart} (completion : Completion plan journal network after others parts)
    (ends : plan.run journal = .ok network after) {index : Nat} {part : RulePart} (found : parts[index]? = some part)
    (meanings : Meanings) :
    part.body.words network.vocabulary meanings (fun _ => network.action?) =
      plan.ruleWords network.vocabulary plan.action? meanings index := by
  have makes := completion.makes
  obtain ⟨rule, known, _⟩ := makes.draws_part found
  cases kind : plan.kind with
  | parser =>
      have absent : plan.action? = fun _ => none := funext fun item => by rw [Plan.action?, kind]
      have empty : network.action? = fun _ => none := funext fun label => by
        simp [Network.action?, Plan.lexerActions_of_parser kind ends]
      rw [absent, empty, ← makes.words_body found]
  | lexer =>
      obtain ⟨other, again, stamped⟩ := RulePart.exists_of_forall₂ completion.stamped known
      obtain rfl : part = other := Option.some.inj (found.symm.trans again)
      rw [← Network.words_trail part.body (makes.houses.holds_body found), Plan.ruleWords, known]
      exact stamped.means _ _ _ _ (completion.named kind ends (Grammar.places_subset_items known))

/-- The words of the runs through a rule of a network that was built are those of the language of the rule, with the
action of the table wherever the grammar has one run: a run never loses or gains a word by how the pieces were put
together and what was taken out. -/
theorem Plan.run_language (plan : Plan) (journal : Journal) :
    match plan.run journal with
    | .ok network _ =>
        ∀ index, network.spells network.action? index = plan.language network.vocabulary plan.action? index
    | .error _ _ => True := by
  split
  · rename_i network after ends
    obtain ⟨others, parts, completion⟩ := completes_of_run ends
    exact congrFun (completion.makes.spells_eq fun index part found => completion.words_body ends found)
  · trivial

-- In `A : 'a' -> more ; B : 'b' {code} -> more ;` both commands come to the same action, and the code to one of its own.
example :
    let more : Command := { name := "more" }
    let code : Element := ⟨.action "code" (some 0), none⟩
    let rule (name text : String) (behind : List Element) : Rule :=
      { name, alternatives := [{ elements := ⟨.literal text, none⟩ :: behind, commands := [more] }] }
    let plan := Plan.ofGrammar
      { kind := .lexer, name := "L", fileName := "L.g4", caseInsensitive := false
        rules := #[rule "A" "'a'" [], rule "B" "'b'" [code]]
        tokens := ["A", "B"], channels := [], modes := ["DEFAULT_MODE"], actionCount := 1 }
    plan.action? (.command ⟨0, [(0, 0)]⟩ more) = some .more ∧ plan.action? (.command ⟨1, [(0, 0)]⟩ more) = some .more ∧
      plan.action? (.element ⟨1, [(0, 1)]⟩ code) = some (.custom 1 0) := by
  decide +kernel

end GrammarNetwork
