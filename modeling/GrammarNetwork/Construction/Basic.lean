import GrammarNetwork.Construction.Failure
import GrammarNetwork.Construction.Template
import GrammarNetwork.Grammar.Basic
import GrammarNetwork.Journal
import GrammarNetwork.Network.Lookahead

/-! The state of a construction and its basic steps. -/

namespace GrammarNetwork

/-- What is built, and with what. The leaves of a lexer match characters and those of a parser tokens. -/
structure Plan where
  grammar : Grammar
  kind : GrammarKind
  lookahead : Lookahead := Network.look
  templates : Templates := Templates.none

/-- The plan that goes with the kind of the grammar. -/
def Plan.ofGrammar (grammar : Grammar) : Plan where
  grammar
  kind := grammar.kind

/-- A block that is checked once the network is complete. -/
structure Check where
  rule : Nat
  start : StateId
  exit : StateId
deriving DecidableEq, Repr

/-- The place of an element or a command in a grammar: its rule and, from the outermost block inwards, the
alternative and the index in it. -/
structure Site where
  rule : Nat
  path : List (Nat × Nat)
deriving DecidableEq, Repr

namespace Site

/-- The place of item `index` of alternative `alternative` in the block at this place. -/
def child (site : Site) (alternative index : Nat) : Site :=
  { site with path := site.path ++ [(alternative, index)] }

end Site

structure Construction where
  network : Network
  /-- The rule that new states belong to. -/
  rule : Option Nat := none
  loopChecks : Array Check := #[]
  optionalChecks : Array Check := #[]
  journal : Journal := {}
  /-- The states made for elements and commands, the newest first. -/
  elementStates : List (Site × StateId) := []
  commandStates : List (Site × StateId) := []
  /-- The names of the commands in the current rule. -/
  usedCommands : List String := []
  actions : Array LexerAction := #[]
  nextAction : Nat := 0

/-- A step of a construction. A step that fails leaves what was built before. -/
abbrev Build := EStateM Failure Construction

/-- An empty network, before any step. -/
def Plan.start (plan : Plan) (journal : Journal) : Construction where
  network := { kind := plan.grammar.kind, maxTokenType := plan.grammar.maxTokenType }
  journal
  nextAction := plan.grammar.actionCount

namespace Build

def network : Build Network :=
  return (← get).network

def modifyNetwork (change : Network → Network) : Build Unit :=
  modify fun construction => { construction with network := change construction.network }

def note (note : Note) : Build Unit :=
  modify fun construction => { construction with journal := construction.journal.note note }

def report (plan : Plan) (problem : Problem) (position : Option Position) (arguments : List String) :
    Build Unit :=
  modify fun construction =>
    { construction with
      journal := construction.journal.report
        { problem, file := plan.grammar.fileName, position, arguments } }

/-- Reports a contradiction and ends the construction. -/
def fail {α : Type} (plan : Plan) (cause : Inconsistency) : Build α := do
  report plan .internalError none [cause.message]
  throw (.inconsistent cause)

def currentRule (plan : Plan) : Build Nat := do
  match (← get).rule with
  | some rule => return rule
  | none => fail plan .noCurrentRule

def setRule (rule : Nat) : Build Unit :=
  modify fun construction => { construction with rule := some rule }

def state (id : StateId) : Build State := do
  match (← network).state? id with
  | some state => return state
  | none => throw (.missingState id)

/-- Changes a state that must be there. -/
def changeState (id : StateId) (change : State → State) : Build Unit := do
  if (← network).isLive id then modifyNetwork (·.modifyState id change)
  else throw (.missingState id)

/-- A new state of the given rule. -/
def newStateIn (rule : Option Nat) (kind : StateKind) : Build StateId :=
  modifyGet fun construction =>
    (construction.network.nextId,
      { construction with network := construction.network.addState { rule, kind } })

/-- A new state of the current rule. -/
def newState (kind : StateKind) : Build StateId := do
  newStateIn (← get).rule kind

def addTransition (source : StateId) (transition : Transition) : Build Unit := do
  if (← network).isLive source then modifyNetwork (·.addTransition source transition)
  else throw (.missingState source)

def epsilon (source target : StateId) : Build Unit :=
  addTransition source ⟨target, .epsilon⟩

def defineDecision (id : StateId) : Build Nat := do
  match (← network).decisionNumber? id with
  | some decision => do
      modifyNetwork (·.defineDecision id)
      note (.decisionDefined id decision)
      return decision
  | none => throw (.missingState id)

/-- Two new states with one transition between them. -/
def atom (label : Label) : Build Handle := do
  let left ← newState .basic
  let right ← newState .basic
  addTransition left ⟨right, label⟩
  return ⟨left, right⟩

/-- The start and the end of a rule. -/
def ruleStates (plan : Plan) (rule : Nat) : Build (StateId × StateId) := do
  let network ← network
  match network.ruleStarts[rule]?, network.ruleStops[rule]? with
  | some start, some stop => return (start, stop)
  | _, _ => fail plan (.noStartState rule)

/-- Remembers the state made for an element. -/
def markElement (site : Site) (id : StateId) : Build Unit :=
  modify fun construction => { construction with elementStates := (site, id) :: construction.elementStates }

/-- Remembers the state made for a command. -/
def markCommand (site : Site) (id : StateId) : Build Unit :=
  modify fun construction => { construction with commandStates := (site, id) :: construction.commandStates }

end Build

end GrammarNetwork
