import GrammarNetwork.Proofs.Actions
import GrammarNetwork.Proofs.Labels
import GrammarNetwork.Proofs.Straight

/-! Stamps: the states that a construction remembers for the elements and the commands of a grammar are still there in
the network when it is complete, unless a pass has taken them out or they were the end of a transition that was left
out, which happens only where all that was built from there on leads on to the end of a block. -/

namespace GrammarNetwork

/-- Around the alternatives of a block nothing is run. -/
theorem Joint.isAction_states {joint : Joint} {rule : Option Nat} {next : Option StateId} {entry : StateId × State}
    (member : entry ∈ joint.states rule next) {transition : Transition} (leaves : transition ∈ entry.2.transitions) :
    transition.label.isAction = false := by
  have none := joint.frame.marks_states rule joint.start joint.exit joint.entries next
  have listed : transition.label ∈ (joint.states rule next).labels :=
    List.mem_flatMap.mpr ⟨entry, member, List.mem_map_of_mem leaves⟩
  have leads := List.filter_eq_nil_iff.mp none _ (List.mem_map_of_mem listed)
  cases label : transition.label <;> first | rfl | simp [label, Label.erase] at leads

theorem exists_enact {item : Item} {errand : Errand} {tasks : List Task} (listed : (item, errand) ∈ tasks) (next : Nat) :
    ∃ action, (item, action) ∈ enact next tasks := by
  fun_induction enact next tasks with
  | case1 => cases listed
  | case2 next other action rest ih | case3 next other own rest ih | case4 next other rest ih =>
      rcases List.mem_cons.mp listed with same | later
      · cases same
        exact ⟨_, List.mem_cons_self⟩
      · obtain ⟨action, found⟩ := ih later
        exact ⟨action, List.mem_cons_of_mem _ found⟩

/-- Every errand comes to an action. -/
theorem Plan.exists_deed {plan : Plan} {item : Item} (listed : item ∈ plan.grammar.items) {errand : Errand}
    (runs : plan.errand? item = some errand) : ∃ action, (item, action) ∈ plan.deeds :=
  exists_enact (List.mem_filterMap.mpr ⟨item, listed, by rw [runs]; rfl⟩) _

namespace Build.Completion

variable {plan : Plan} {journal : Journal} {network : Network} {after : Construction} {others : Heap}
  {parts : List RulePart}

/-- A state of a lexer that runs an action does nothing else. -/
theorem runs_alone (completion : Completion plan journal network after others parts) (lexer : plan.kind = .lexer)
    {id : StateId} {state : State} (found : network.state? id = some state) {transition : Transition}
    (leaves : transition ∈ state.transitions) (runs : transition.label.isAction = true) :
    state.transitions = [transition] := by
  have leadsOn : ∀ target, transition ≠ .silent target := by
    rintro target rfl
    cases runs
  rcases completion.makes.houses.mem_of_state? found with outside | ⟨index, part, known, inside⟩
  · obtain ⟨start, _, silent⟩ := (completion.makes.houses.neutral _ outside).transitions transition leaves
    exact absurd silent (leadsOn start)
  · simp only [RulePart.heap, List.mem_cons, Prod.mk.injEq] at inside
    rcases inside with ⟨_, rfl⟩ | ⟨_, rfl⟩ | within
    · obtain ⟨target, _, silent⟩ := List.mem_map.mp leaves
      exact absurd silent.symm (leadsOn target)
    · have linked := completion.linked
      rw [lexer] at linked
      rw [linked part (List.mem_of_getElem? known)] at leaves
      cases leaves
    · rcases part.body.mem_layout within with ⟨transitions, rfl, narrow⟩ | ⟨joint, _, next, member⟩
      · match transitions, leaves, narrow with
        | [only], leaves, _ => rw [List.mem_singleton.mp leaves]
      · rw [Joint.isAction_states member leaves] at runs
        cases runs

end Build.Completion

namespace Plan

variable {plan : Plan} {journal : Journal} {network : Network} {after : Construction}

/-- A construction remembers one state for a place. -/
theorem once_of_run (ends : plan.run journal = .ok network after) (owner : Owner) : after.owners.count owner ≤ 1 := by
  have marks : Build.Marks (Build.complete plan) _ := Build.marks_complete
  have meets := marks (plan.start journal)
  unfold Plan.run EStateM.run at ends
  rw [Build.Meets, ends] at meets
  have apart := List.nodup_iff_count_le_one.mp (nodup_rulePlaces plan.grammar.rules.toList 0) owner
  have before : (plan.start journal).owners.count owner = 0 := rfl
  have marked : after.owners.count owner ≤ (plan.grammar.places.map Item.owner).count owner + _ := meets.once owner
  rw [before, Grammar.places] at marked
  omega

-- In `a : B () | C ;` the empty block keeps its state. In `a : (B () | C) | D ;` the pass over the inner block takes out
-- the end of it, and the pass over the body its beginning.
example :
    let token (name : String) : Element := ⟨.token name, none⟩
    let choice (alternatives : List (List Element)) : Block :=
      { alternatives := alternatives.map fun elements => { elements } }
    let inner := choice [[token "B", ⟨.block (choice [[]]), none⟩], [token "C"]]
    let outer := choice [[⟨.block inner, none⟩], [token "D"]]
    let grammar : Grammar :=
      { kind := .parser, name := "P", fileName := "P.g4", caseInsensitive := false, rules := #[]
        tokens := ["B", "C", "D"], channels := [], modes := [], actionCount := 0 }
    (ofGrammar grammar).keeps 0 { name := "a", alternatives := inner.alternatives } ⟨0, [(0, 1)]⟩ = true ∧
      (ofGrammar grammar).keeps 0 { name := "a", alternatives := outer.alternatives } ⟨0, [(0, 0), (0, 1)]⟩ =
        false := by
  decide +kernel

end Plan

end GrammarNetwork
