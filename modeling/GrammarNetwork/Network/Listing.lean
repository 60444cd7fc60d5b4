import GrammarNetwork.Grammar.Basic
import GrammarNetwork.Network.Walk

/-! Listings of networks: one line for each transition, in breadth-first order. -/

namespace GrammarNetwork

namespace Network

def ruleName (grammar : Grammar) (rule : Option Nat) : String :=
  ((rule.bind fun index => grammar.rules[index]?).map Rule.name).getD "?"

/-- The name of a state: its number, with its kind and its rule where they matter. -/
def stateName (network : Network) (grammar : Grammar) (id : StateId) : String :=
  match network.state? id with
  | none => s!"s{id}"
  | some state =>
      match state.kind with
      | .ruleStart _ _ | .ruleStop => s!"{state.kind.name}_{ruleName grammar state.rule}_{id}"
      | .blockStart _ _ _ | .blockEnd _ | .starLoopEntry _ | .starLoopBack | .plusLoopBack =>
          s!"{state.kind.name}_{id}"
      | .basic | .loopEnd _ | .tokensStart => s!"s{id}"

/-- The integers of an interval in ascending order. -/
def intervalElements (interval : Interval) : List Int :=
  (List.range interval.size).map fun (offset : Nat) => interval.first + (offset : Int)

/-- A set of symbols: characters as literals, tokens by their names. -/
def setText (grammar : Grammar) (symbols : IntervalSet) : String :=
  if grammar.isLexer then
    let body := Literal.setLiteral symbols
    if symbols.intervals.length = 1 then body else "\x7b" ++ body ++ "\x7d"
  else
    match (symbols.intervals.flatMap intervalElements).map grammar.tokenName with
    | [name] => name
    | names => "\x7b" ++ ", ".intercalate names ++ "\x7d"

def labelText (grammar : Grammar) : Label → String
  | .atom symbol => grammar.tokenName symbol
  | .range first last => Literal.rangeLiteral first last
  | .set symbols => setText grammar symbols
  | .notSet symbols => "~" ++ setText grammar symbols
  | .call rule _ _ => ruleName grammar (some rule)
  | label => label.toText

/-- Where a listing goes on: calls are stepped over, and the end of a rule is the end. -/
def listedSuccessors (state : State) : List StateId :=
  if state.kind = .ruleStop then [] else state.transitions.map Transition.next

/-- Keeps the first transition to each target. -/
def distinctTargets (seen : List StateId) : List Transition → List Transition
  | [] => []
  | transition :: rest =>
      if transition.target ∈ seen then distinctTargets seen rest
      else transition :: distinctTargets (transition.target :: seen) rest

/-- The transitions that get a line. The end of a rule can lead to the same state many times, once for each
call; it gets one line for each target. -/
def listedTransitions (state : State) : List Transition :=
  if state.kind = .ruleStop then distinctTargets [] state.transitions else state.transitions

def transitionLine (network : Network) (grammar : Grammar) (id : StateId) (transition : Transition) :
    String :=
  let label := match transition.label with
    | .epsilon => ""
    | label => "-" ++ labelText grammar label
  network.stateName grammar id ++ label ++ "->" ++ network.stateName grammar transition.target

/-- The lines of all states that `start` leads to within its rule. -/
def listingLines (network : Network) (grammar : Grammar) (start : StateId) : List String :=
  (network.breadthFirst listedSuccessors start).flatMap fun id =>
    match network.state? id with
    | none => []
    | some state => (listedTransitions state).map (network.transitionLine grammar id)

def listing (network : Network) (grammar : Grammar) (start : StateId) : String :=
  String.join ((network.listingLines grammar start).map (· ++ "\n"))

end Network

end GrammarNetwork
