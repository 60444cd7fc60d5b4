import GrammarNetwork.Proofs.Failures

/-! Closed networks: whatever a network refers to is there, and what belongs to a rule stays in the rule until
its end. Every construction comes to such a network or fails for another cause than a missing state. -/

namespace GrammarNetwork

/-- The transition leads to a state of the rule, or calls a rule at its start and comes back to a state of the
rule. -/
def Network.StaysIn (network : Network) (rule : Nat) (transition : Transition) : Prop :=
  match transition.label with
  | .call callee _ follow =>
      network.ruleStarts[callee]? = some transition.target ∧ network.isInRule (some rule) follow = true
  | _ => network.isInRule (some rule) transition.target = true

/-- All states that the network refers to are there, and every transition of a rule stays in it, apart from
those that leave its end. -/
structure Network.Closed (network : Network) : Prop where
  targets : ∀ id state, network.state? id = some state → ∀ transition ∈ state.transitions,
    network.isLive transition.target = true
  follows : ∀ id state, network.state? id = some state → ∀ transition ∈ state.transitions,
    ∀ rule level follow, transition.label = .call rule level follow → network.isLive follow = true
  references : ∀ id state, network.state? id = some state → ∀ other ∈ state.kind.references,
    network.isLive other = true
  decisions : ∀ id ∈ network.decisions, network.isLive id = true
  ruleStarts : ∀ id ∈ network.ruleStarts, network.isLive id = true
  ruleStops : ∀ id ∈ network.ruleStops, network.isLive id = true
  modeStarts : ∀ id ∈ network.modeStarts, network.isLive id = true
  rules : ∀ id state rule, network.state? id = some state → state.rule = some rule →
    network.ruleStops[rule]? ≠ some id → ∀ transition ∈ state.transitions, network.StaysIn rule transition

namespace Network

theorem isInRule_iff {network : Network} {rule : Option Nat} {id : StateId} :
    network.isInRule rule id = true ↔ ∃ state, network.state? id = some state ∧ state.rule = rule := by
  cases found : network.state? id <;> simp [isInRule, found]

namespace StaysIn

variable {network : Network} {rule : Nat} {transition : Transition}

theorem isLive_target (stays : network.StaysIn rule transition)
    (starts : ∀ id ∈ network.ruleStarts, network.isLive id = true) :
    network.isLive transition.target = true := by
  unfold StaysIn at stays
  split at stays
  · exact starts _ (Array.mem_of_getElem? stays.1)
  · obtain ⟨state, found, _⟩ := isInRule_iff.mp stays
    exact network.isLive_iff.mpr ⟨state, found⟩

end StaysIn

namespace Houses

variable {network : Network} {others : Heap} {parts : List RulePart} {part : RulePart}

theorem isInRule_of_mem (houses : network.Houses others parts) {index : Nat} (found : parts[index]? = some part)
    {id : StateId} (member : id ∈ (part.heap network.ruleStarts index).ids) :
    network.isInRule (some index) id = true := by
  obtain ⟨state, inside⟩ := Heap.mem_ids.mp member
  exact isInRule_iff.mpr ⟨state, houses.state?_of_mem found inside, RulePart.rule_heap _ inside⟩

theorem isLive_starts (houses : network.Houses others parts) :
    ∀ id ∈ network.ruleStarts, network.isLive id = true := by
  intro id member
  rw [← Array.mem_toList_iff, houses.starts, List.mem_map] at member
  obtain ⟨part, listed, rfl⟩ := member
  obtain ⟨index, found⟩ := List.getElem?_of_mem listed
  exact network.isLive_iff.mpr ⟨_, houses.state?_start found⟩

theorem isLive_stops (houses : network.Houses others parts) :
    ∀ id ∈ network.ruleStops, network.isLive id = true := by
  intro id member
  rw [← Array.mem_toList_iff, houses.stops, List.mem_map] at member
  obtain ⟨part, listed, rfl⟩ := member
  obtain ⟨index, found⟩ := List.getElem?_of_mem listed
  exact network.isLive_iff.mpr ⟨_, houses.state?_stop found⟩

/-- What leaves a state of a rule before its end stays in the rule. -/
theorem staysIn (houses : network.Houses others parts) {index : Nat} (found : parts[index]? = some part)
    {state : State} (confined : state.Confined network.ruleStarts (some index)
      (part.heap network.ruleStarts index).ids) :
    ∀ transition ∈ state.transitions, network.StaysIn index transition := by
  intro transition member
  obtain ⟨label, next, rfl, below, inside⟩ := confined.transitions transition member
  have stays := houses.isInRule_of_mem found inside
  cases label with
  | call callee level _ =>
      refine ⟨?_, stays⟩
      have bound : callee < network.ruleStarts.size := below callee rfl
      simp [Label.edge, bound]
  | _ => exact stays

/-- A state outside all rules, an end of a rule, or another state of a rule. -/
theorem state_cases (houses : network.Houses others parts) {id : StateId} {state : State}
    (found : network.state? id = some state) :
    state.IsNeutral network.ruleStarts ∨ ∃ (index : Nat) (part : RulePart), parts[index]? = some part ∧
      (state = { rule := some index, kind := .ruleStop, transitions := part.exits } ∧ id = part.stop ∨
        state.Confined network.ruleStarts (some index) (part.heap network.ruleStarts index).ids) := by
  rcases houses.mem_of_state? found with outside | ⟨index, part, known, member⟩
  · exact Or.inl (houses.neutral _ outside)
  · exact Or.inr ⟨index, part, known, RulePart.confined (houses.callsBelow known) member⟩

theorem closed (houses : network.Houses others parts) : network.Closed where
  targets id state found transition member := by
    rcases houses.state_cases found with neutral | ⟨index, part, known, ⟨rfl, _⟩ | confined⟩
    · obtain ⟨start, listed, rfl⟩ := neutral.transitions transition member
      exact houses.isLive_starts start listed
    · exact (houses.exits part (List.mem_of_getElem? known) transition member).2
    · exact (houses.staysIn known confined transition member).isLive_target houses.isLive_starts
  follows id state found transition member rule level follow call := houses.isLive_follow found member call
  references id state found other member := by
    rcases houses.state_cases found with neutral | ⟨index, part, known, ⟨rfl, _⟩ | confined⟩
    · rw [neutral.references] at member
      cases member
    · cases member
    · exact houses.isLive_of_mem known (confined.references other member)
  decisions id member := by
    obtain ⟨number, listed⟩ := Array.getElem?_of_mem member
    obtain ⟨state, inside, _⟩ := (houses.stands.decides number id).mp listed
    exact houses.stands.isLive (Heap.mem_ids_of_mem inside)
  ruleStarts := houses.isLive_starts
  ruleStops := houses.isLive_stops
  modeStarts id member := houses.isLive_other (houses.modes id member)
  rules id state rule found same inner transition member := by
    rcases houses.state_cases found with neutral | ⟨index, part, known, ⟨rfl, rfl⟩ | confined⟩
    · rw [neutral.rule] at same
      cases same
    · obtain rfl : index = rule := Option.some.inj same
      rw [houses.ruleStops_getElem?, known] at inner
      exact absurd rfl inner
    · obtain rfl : index = rule := Option.some.inj (confined.rule.symm.trans same)
      exact houses.staysIn known confined transition member

end Houses

end Network

/-- No construction comes to a state that was removed or never there, and one that ends well has built a closed
network. -/
theorem Plan.run_closed (plan : Plan) (journal : Journal) :
    match plan.run journal with
    | .ok network _ => network.Closed
    | .error failure _ => ∀ id, failure ≠ .missingState id := by
  split
  · rename_i network after ends
    obtain ⟨others, parts, makes, _⟩ := completes_of_run ends
    exact makes.houses.closed
  · rename_i failure after ends
    rintro id rfl
    exact plan.missingState_not_mem_faults id (fault_of_run ends)

end GrammarNetwork
