import GrammarNetwork.Grammar.Symbol
import GrammarNetwork.IntervalSet
import GrammarNetwork.Unicode.Scalar

/-! Augmented transition networks: states in numbered slots, each with labelled transitions in the order of
their priority. A state that is removed leaves an empty slot, so numbers stay what they are. -/

namespace GrammarNetwork

/-- The number of a state. -/
abbrev StateId := Nat

/-- What a block belongs to. -/
inductive BlockKind where
  | plain
  | star
  | plus
deriving DecidableEq, Repr

/-- What a state is for, with the states that belong to it. -/
inductive StateKind where
  | basic
  | ruleStart (stop : StateId) (leftRecursive : Bool)
  | ruleStop
  | blockStart (kind : BlockKind) (exit loopBack : Option StateId)
  | blockEnd (start : Option StateId)
  | starLoopEntry (loopBack : Option StateId)
  | loopEnd (loopBack : Option StateId)
  | starLoopBack
  | plusLoopBack
  | tokensStart
deriving DecidableEq, Repr

def StateKind.name : StateKind → String
  | .basic => "Basic"
  | .ruleStart _ _ => "RuleStart"
  | .ruleStop => "RuleStop"
  | .blockStart .plain _ _ => "BlockStart"
  | .blockStart .star _ _ => "StarBlockStart"
  | .blockStart .plus _ _ => "PlusBlockStart"
  | .blockEnd _ => "BlockEnd"
  | .starLoopEntry _ => "StarLoopEntry"
  | .loopEnd _ => "LoopEnd"
  | .starLoopBack => "StarLoopBack"
  | .plusLoopBack => "PlusLoopBack"
  | .tokensStart => "TokensStart"

/-- What a lexer does when it has matched a rule. -/
inductive LexerAction where
  | skip
  | more
  | popMode
  | mode (number : Int)
  | pushMode (number : Int)
  | type (number : Int)
  | channel (number : Int)
  | custom (rule action : Nat)
deriving DecidableEq, Repr

def LexerAction.toText : LexerAction → String
  | .skip => "skip"
  | .more => "more"
  | .popMode => "popMode"
  | .mode number => s!"mode({number})"
  | .pushMode number => s!"pushMode({number})"
  | .type number => s!"type({number})"
  | .channel number => s!"channel({number})"
  | .custom rule action => s!"custom({rule}, {action})"

/-- What a transition matches or does. -/
inductive Label where
  | epsilon
  | atom (symbol : Int)
  | range (first last : Int)
  | set (symbols : IntervalSet)
  | notSet (symbols : IntervalSet)
  | wildcard
  /-- Runs an action; those of lexers have an index in the table of actions. -/
  | action (rule : Nat) (index : Option Nat) (contextDependent : Bool)
  /-- Calls a rule, which starts at the target of the transition, and goes on at `follow`. -/
  | call (rule : Nat) (precedence : Int) (follow : StateId)
  | predicate (rule index : Nat) (contextDependent : Bool)
  | precedence (level : Int)
deriving DecidableEq

namespace Label

/-- Whether nothing is consumed. -/
def isEpsilon : Label → Bool
  | .epsilon | .action _ _ _ | .call _ _ _ | .predicate _ _ _ | .precedence _ => true
  | .atom _ | .range _ _ | .set _ | .notSet _ | .wildcard => false

/-- The symbols that the label names; for an inverted set these are the ones it does not match. -/
def symbols? : Label → Option IntervalSet
  | .atom symbol => some (.ofRange symbol symbol)
  | .range first last => some (.ofRange first last)
  | .set symbols => some symbols
  | .notSet symbols => some symbols
  | _ => none

def toText : Label → String
  | .epsilon => "ε"
  | .atom symbol => toString symbol
  | .range first last => s!"{first}..{last}"
  | .set symbols => symbols.toText
  | .notSet symbols => "~" ++ symbols.toText
  | .wildcard => "."
  | .action rule (some index) _ => s!"action_{rule}:{index}"
  | .action rule none _ => s!"action_{rule}"
  | .call rule _ _ => s!"rule_{rule}"
  | .predicate rule index _ => s!"pred_{rule}:{index}"
  | .precedence level => s!"{level} >= _p"

end Label

structure Transition where
  target : StateId
  label : Label
deriving DecidableEq

namespace Transition

/-- Where a rule goes on after the transition: a call comes back to its follow state. -/
def next (transition : Transition) : StateId :=
  match transition.label with
  | .call _ _ follow => follow
  | _ => transition.target

/-- The transition with another state to go on at. -/
def redirect (transition : Transition) (state : StateId) : Transition :=
  match transition.label with
  | .call rule precedence _ => { transition with label := .call rule precedence state }
  | _ => { transition with target := state }

end Transition

structure State where
  rule : Option Nat
  kind : StateKind
  transitions : List Transition := []
  decision : Option Nat := none
  nonGreedy : Bool := false
deriving DecidableEq

structure Network where
  kind : GrammarKind
  maxTokenType : Int
  states : Array (Option State) := #[]
  decisions : Array StateId := #[]
  ruleStarts : Array StateId := #[]
  ruleStops : Array StateId := #[]
  ruleTokenTypes : List Int := []
  modeStarts : Array StateId := #[]
  lexerActions : Array LexerAction := #[]
deriving DecidableEq

namespace Network

/-- All symbols: what a wildcard matches. -/
def vocabulary (network : Network) : IntervalSet :=
  match network.kind with
  | .lexer => .ofRange 0 Unicode.maxCodePoint
  | .parser => .ofRange minUserTokenType network.maxTokenType

/-- The state with this number, unless it was removed or never there. -/
def state? (network : Network) (id : StateId) : Option State :=
  network.states[id]?.join

def isLive (network : Network) (id : StateId) : Bool :=
  (network.state? id).isSome

/-- The states that are there, in ascending order, with their numbers. -/
def liveStates (network : Network) : List (StateId × State) :=
  network.states.toList.zipIdx.filterMap fun slot => slot.1.map fun state => (slot.2, state)

def stateCount (network : Network) : Nat :=
  network.liveStates.length

def transitionCount (network : Network) : Nat :=
  (network.liveStates.flatMap fun entry => entry.2.transitions).length

/-- The network with a new state behind all others. -/
def addState (network : Network) (state : State) : Network :=
  { network with states := network.states.push (some state) }

/-- The number that the next new state gets. -/
def nextId (network : Network) : StateId :=
  network.states.size

def removeState (network : Network) (id : StateId) : Network :=
  { network with states := network.states.setIfInBounds id none }

/-- The network with a state changed; a state that is not there is not changed. -/
def modifyState (network : Network) (id : StateId) (change : State → State) : Network :=
  { network with states := network.states.modify id fun slot => slot.map change }

/-- Appends a transition to those of `source`, if that state is there. -/
def addTransition (network : Network) (source : StateId) (transition : Transition) : Network :=
  network.modifyState source fun state =>
    { state with transitions := state.transitions ++ [transition] }

/-- The number that a state has as a decision or gets when it becomes one, if it is there. -/
def decisionNumber? (network : Network) (id : StateId) : Option Nat :=
  (network.state? id).map fun state => state.decision.getD network.decisions.size

/-- Appends a state to the decisions. -/
def pushDecision (network : Network) (id : StateId) : Network :=
  let decision := network.decisions.size
  let changed := network.modifyState id fun state => { state with decision := some decision }
  { changed with decisions := changed.decisions.push id }

/-- Makes a state a decision, if it is there and is none. -/
def defineDecision (network : Network) (id : StateId) : Network :=
  if (network.state? id).any fun state => state.decision.isNone then network.pushDecision id else network

end Network

/-- A piece of a network: one state to enter it and one to leave it. -/
structure Handle where
  left : StateId
  right : StateId
deriving DecidableEq, Repr

end GrammarNetwork
