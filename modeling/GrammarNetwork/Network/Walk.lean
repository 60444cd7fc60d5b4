import GrammarNetwork.Network.StateSet

/-! Walks through a network that visit every state at most once. -/

namespace GrammarNetwork

theorem contains_of_dropWhile_eq_cons {remaining : StateSet} {queue rest : List StateId} {id : StateId}
    (found : queue.dropWhile (fun id => !remaining.contains id) = id :: rest) :
    remaining.contains id = true := by
  induction queue with
  | nil => simp at found
  | cons first queue ih =>
      by_cases fresh : remaining.contains first = true
      · have same : first = id ∧ queue = rest := by simpa [List.dropWhile_cons, fresh] using found
        exact same.1 ▸ fresh
      · exact ih (by simpa [List.dropWhile_cons, fresh] using found)

namespace Network

/-- Visits the states in the queue and those that `next` leads to, in breadth-first order. Only states in
`remaining` are visited, and each of them once. -/
def visitFrom (next : StateId → List StateId) (remaining : StateSet) (queue : List StateId) :
    List StateId :=
  match _ : queue.dropWhile (fun id => !remaining.contains id) with
  | [] => []
  | id :: rest => id :: visitFrom next (remaining.erase id) (rest ++ next id)
termination_by remaining.size
decreasing_by
  exact remaining.size_erase_lt id (contains_of_dropWhile_eq_cons ‹_›)

/-- The states reached from `start` in breadth-first order, where `next` gives the successors of a state. -/
def breadthFirst (network : Network) (next : State → List StateId) (start : StateId) : List StateId :=
  visitFrom (fun id => ((network.state? id).map next).getD []) network.liveSet [start]

/-- Where a transition leads: to its target and, if it calls a rule, also to its follow state. -/
def successors (state : State) : List StateId :=
  state.transitions.flatMap fun transition =>
    match transition.label with
    | .call _ _ follow => [transition.target, follow]
    | _ => [transition.target]

/-- The states that can be reached from `start`, rules that are called included. -/
def reachableFrom (network : Network) (start : StateId) : List StateId :=
  network.breadthFirst successors start

end Network

end GrammarNetwork
