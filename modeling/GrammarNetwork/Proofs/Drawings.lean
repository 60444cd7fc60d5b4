import GrammarNetwork.Network.Dot
import GrammarNetwork.Proofs.Closed
import GrammarNetwork.Proofs.Dispatch
import GrammarNetwork.Proofs.Links
import GrammarNetwork.Proofs.Reachability

/-! Drawings: the graph of a network has a node for each state that it shows and an edge for each of their transitions.
No edge is left out, since a network that is built leads from the states shown to states shown only. -/

namespace GrammarNetwork

theorem forall₂_flatMap {α β γ : Type} {relation : β → γ → Prop} {first : α → List β} {second : α → List γ}
    {items : List α} (each : ∀ item ∈ items, List.Forall₂ relation (first item) (second item)) :
    List.Forall₂ relation (items.flatMap first) (items.flatMap second) := by
  have same : List.Forall₂ (fun item other => item ∈ items ∧ item = other) items items :=
    List.forall₂_same.mpr fun _ listed => ⟨listed, rfl⟩
  exact List.rel_flatMap same fun item _ ⟨listed, same⟩ => same ▸ each item listed

/-- The transitions of the states in their order, each with the state that it leaves. -/
def departures (states : List (StateId × State)) : List (StateId × Transition) :=
  states.flatMap fun entry => entry.2.transitions.map fun transition => (entry.1, transition)

theorem length_departures (states : List (StateId × State)) :
    (departures states).length = (states.flatMap fun entry => entry.2.transitions).length := by
  simp [departures, List.length_flatMap]

/-- The edge is that of the transition: it leads from the node of the state that the transition leaves to the node of
its target. -/
structure Edge.Draws (grammar : Grammar) (ids : List StateId) (departure : StateId × Transition) (edge : Edge) :
    Prop where
  source : ids[edge.source]? = some departure.1
  target : ids[edge.target]? = some departure.2.target
  label : edge.label = Network.labelText grammar departure.2.label

/-- The graph has a node for each of the states in ascending order, an edge for each of their transitions, and nothing
else. -/
structure Graph.Shows (graph : Graph) (network : Network) (grammar : Grammar) (states : List (StateId × State)) :
    Prop where
  ordered : states.Pairwise fun first second => first.1 < second.1
  nodes : graph.nodes = states.map fun entry => network.stateName grammar entry.1
  edges : List.Forall₂ (Edge.Draws grammar (states.map Prod.fst)) (departures states) graph.edges

namespace Network

/-- The transitions of the states lead to these states only. -/
def ClosedUnder (states : List (StateId × State)) : Prop :=
  ∀ entry ∈ states, ∀ transition ∈ entry.2.transitions, transition.target ∈ states.map Prod.fst

theorem draws_stateEdges {grammar : Grammar} {ids : List StateId} {source : Nat} {id : StateId} {state : State}
    (there : ids[source]? = some id) (inside : ∀ transition ∈ state.transitions, transition.target ∈ ids) :
    List.Forall₂ (Edge.Draws grammar ids) (state.transitions.map fun transition => (id, transition))
      (stateEdges grammar ids source state) := by
  rw [List.forall₂_map_left_iff]
  refine List.Forall₂.imp ?_ (forall₂_filterMap fun transition leaves => ?_)
  · intro transition edge drawn
    obtain ⟨target, found, rfl⟩ := Option.map_eq_some_iff.mp drawn
    obtain ⟨bound, same, _⟩ := List.idxOf?_eq_some_iff.mp found
    exact ⟨there, List.getElem?_eq_some_iff.mpr ⟨bound, same⟩, rfl⟩
  · rw [Option.isSome_map, List.isSome_idxOf?]
    exact inside transition leaves

/-- The states that can be reached from a state, with their numbers. -/
def reachedStates (network : Network) (start : StateId) : List (StateId × State) :=
  network.liveStates.filter fun entry => decide (entry.1 ∈ network.reachableFrom start)

theorem shownStates_of_rule {network : Network} {grammar : Grammar} {name : String} {index : Nat} {start : StateId}
    (named : grammar.ruleIndex? name = some index) (starts : network.ruleStarts[index]? = some start) :
    network.shownStates grammar (some name) = network.reachedStates start := by
  simp [shownStates, reachedStates, named, starts]

theorem graph_shows {network : Network} {grammar : Grammar} {rule : Option String} {states : List (StateId × State)}
    (shown : network.shownStates grammar rule = states) (ordered : states.Pairwise fun first second => first.1 < second.1)
    (closed : ClosedUnder states) : (network.graph grammar rule).Shows network grammar states := by
  -- The number of a node is the position of its state among those shown.
  have numbered : departures states = states.zipIdx.flatMap fun entry =>
      entry.1.2.transitions.map fun transition => (entry.1.1, transition) := by
    rw [departures, ← List.zipIdx_map_fst 0 states, List.flatMap_map, List.zipIdx_map_fst]
  subst shown
  refine ⟨ordered, List.map_map, numbered ▸ forall₂_flatMap fun entry listed => draws_stateEdges ?_ ?_⟩
  · rw [List.getElem?_map, List.mem_zipIdx_iff_getElem?.mp listed, Option.map_some]
  · exact closed entry.1 (List.fst_mem_of_mem_zipIdx listed)

section Showing

variable {network : Network} {states : List (StateId × State)} {shown : StateId → Prop}

/-- In a closed network the states with a property lead to each other, if the property is handed on to every state that
is there. -/
theorem Closed.closedUnder (closed : network.Closed)
    (exact : ∀ id state, (id, state) ∈ states ↔ network.state? id = some state ∧ shown id)
    (onward : ∀ id state, network.state? id = some state → shown id → ∀ transition ∈ state.transitions,
      network.isLive transition.target = true → shown transition.target) : ClosedUnder states := by
  rintro ⟨id, state⟩ listed transition leaves
  obtain ⟨found, inside⟩ := (exact id state).mp listed
  have live := closed.targets id state found transition leaves
  obtain ⟨next, there⟩ := network.isLive_iff.mp live
  have member := (exact transition.target next).mpr ⟨there, onward id state found inside transition leaves live⟩
  exact List.mem_map_of_mem member

theorem closedUnder_liveStates (closed : network.Closed) : ClosedUnder network.liveStates :=
  closed.closedUnder (fun id state => by rw [mem_liveStates, and_true]) fun _ _ _ _ _ _ _ => trivial

theorem mem_reachedStates {start id : StateId} {state : State} :
    (id, state) ∈ network.reachedStates start ↔ network.state? id = some state ∧ id ∈ network.reachableFrom start := by
  rw [reachedStates, List.mem_filter, mem_liveStates, decide_eq_true_eq]

theorem closedUnder_reachedStates (closed : network.Closed) (start : StateId) :
    ClosedUnder (network.reachedStates start) := by
  refine closed.closedUnder (fun id state => mem_reachedStates) fun id state found reached transition leaves live => ?_
  have leads : transition.target ∈ successors state := mem_successors.mpr ⟨transition, leaves, Or.inl rfl⟩
  exact mem_breadthFirst.mpr (.step (mem_breadthFirst.mp reached) found leads live)

theorem mem_map_reachedStates {start id : StateId} :
    id ∈ (network.reachedStates start).map Prod.fst ↔ id ∈ network.reachableFrom start := by
  constructor
  · intro listed
    obtain ⟨⟨_, state⟩, member, rfl⟩ := List.mem_map.mp listed
    exact (mem_reachedStates.mp member).2
  · intro reached
    have live : network.isLive id = true := by
      cases mem_breadthFirst.mp reached with
      | start live | step _ _ _ live => exact live
    obtain ⟨state, found⟩ := network.isLive_iff.mp live
    exact List.mem_map_of_mem (mem_reachedStates.mpr ⟨found, reached⟩)

end Showing

end Network

/-- The graph of a network that is built shows all its states, and that of a rule the states that can be reached from
the start of the rule. Each of them has a node, in ascending order, and each of their transitions has an edge in their
order from the node of its state to the node of its target. -/
theorem Plan.run_graph (plan : Plan) (journal : Journal) :
    match plan.run journal with
    | .ok network _ =>
        (network.graph plan.grammar none).Shows network plan.grammar network.liveStates ∧
        (∀ id state, (id, state) ∈ network.liveStates ↔ network.state? id = some state) ∧
        (network.graph plan.grammar none).nodes.length = network.stateCount ∧
        (network.graph plan.grammar none).edges.length = network.transitionCount ∧
        ∀ (name : String) (index : Nat), plan.grammar.ruleIndex? name = some index →
          ∃ (start : StateId) (states : List (StateId × State)), network.ruleStarts[index]? = some start ∧
            (network.graph plan.grammar (some name)).Shows network plan.grammar states ∧
            (∀ id, id ∈ states.map Prod.fst ↔ id ∈ network.reachableFrom start) ∧
            ∀ entry ∈ states, network.state? entry.1 = some entry.2
    | .error _ _ => True := by
  split
  · rename_i network after ends
    obtain ⟨others, parts, makes, _⟩ := completes_of_run ends
    have closed := makes.houses.closed
    have whole : (network.graph plan.grammar none).Shows network plan.grammar network.liveStates :=
      Network.graph_shows rfl network.pairwise_liveStates (Network.closedUnder_liveStates closed)
    refine ⟨whole, fun _ _ => network.mem_liveStates, ?_, ?_, fun name index named => ?_⟩
    · rw [whole.nodes, List.length_map, Network.stateCount]
    · rw [← whole.edges.length_eq, length_departures, Network.transitionCount]
    · obtain ⟨bound, _⟩ := Array.findIdx?_eq_some_iff_getElem.mp named
      obtain ⟨part, found, _⟩ := makes.part_of_rule (Array.getElem?_eq_getElem bound)
      have starts : network.ruleStarts[index]? = some part.start := by
        rw [makes.houses.ruleStarts_getElem?, found, Option.map_some]
      refine ⟨part.start, network.reachedStates part.start, starts, ?_, fun _ => Network.mem_map_reachedStates,
        fun entry listed => (Network.mem_reachedStates.mp listed).1⟩
      exact Network.graph_shows (Network.shownStates_of_rule named starts) (network.pairwise_liveStates.filter _)
        (Network.closedUnder_reachedStates closed part.start)
  · trivial

end GrammarNetwork
