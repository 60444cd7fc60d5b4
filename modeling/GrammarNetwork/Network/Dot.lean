import GrammarNetwork.Network.Listing

/-! Networks as directed graphs in the language of Graphviz. -/

namespace GrammarNetwork

/-- An edge between the nodes with these indices. -/
structure Edge where
  source : Nat
  target : Nat
  label : String
deriving DecidableEq, Repr

/-- A directed graph; the nodes are the indices of `nodes`. -/
structure Graph where
  nodes : List String
  edges : List Edge
deriving DecidableEq, Repr

namespace Graph

/-- A text inside double quotes. -/
def escapeLabel (text : String) : String :=
  String.ofList (text.toList.flatMap fun character =>
    match character with
    | '"' => ['\\', '"']
    | '\\' => ['\\', '\\']
    | '\n' => ['\\', 'l']
    | other => [other])

def nodeLine (index : Nat) (label : String) : String :=
  s!"    {index} [ label = \"{escapeLabel label}\" ]\n"

def edgeLine (edge : Edge) : String :=
  s!"    {edge.source} -> {edge.target} [ label = \"{escapeLabel edge.label}\" ]\n"

/-- The graph as a Graphviz text: nodes, then edges, a line for each. -/
def render (graph : Graph) : String :=
  "digraph ATN \x7b\n    rankdir=LR;\n" ++
    String.join (graph.nodes.zipIdx.map fun node => nodeLine node.2 node.1) ++
    String.join (graph.edges.map edgeLine) ++ "\x7d\n"

end Graph

namespace Network

/-- The states that a graph shows: all of them, or those that the start of a rule leads to. A name that is
no rule shows all. -/
def shownStates (network : Network) (grammar : Grammar) (rule : Option String) : List (StateId × State) :=
  let start := do
    let name ← rule
    let index ← grammar.ruleIndex? name
    network.ruleStarts[index]?
  match start with
  | none => network.liveStates
  | some start =>
      let reachable := network.reachableFrom start
      network.liveStates.filter fun entry => decide (entry.1 ∈ reachable)

/-- The transitions of a state as edges. One to a state that is not shown has none. -/
def stateEdges (grammar : Grammar) (shown : List StateId) (source : Nat) (state : State) : List Edge :=
  state.transitions.filterMap fun transition =>
    (shown.idxOf? transition.target).map fun target =>
      { source, target, label := labelText grammar transition.label }

/-- The graph of the states shown: a node for each in ascending order, and its transitions in order. -/
def graph (network : Network) (grammar : Grammar) (rule : Option String) : Graph :=
  let shown := network.shownStates grammar rule
  let ids := shown.map Prod.fst
  { nodes := ids.map (network.stateName grammar)
    edges := shown.zipIdx.flatMap fun entry => stateEdges grammar ids entry.2 entry.1.2 }

end Network

end GrammarNetwork
