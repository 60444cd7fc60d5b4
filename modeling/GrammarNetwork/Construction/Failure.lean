import GrammarNetwork.Grammar.Symbol
import GrammarNetwork.Network.Basic

/-! Why the construction of a network can end early. -/

namespace GrammarNetwork

/-- A contradiction in what is to be built. -/
inductive Inconsistency where
  | noCurrentRule
  | noStartState (rule : Nat)
  | emptySequence
  | emptyBlock
  | setItem (kind : String)
  | bypassCount (state : StateId) (count : Nat)
deriving DecidableEq, Repr

def Inconsistency.message : Inconsistency → String
  | .noCurrentRule => "no rule is being built"
  | .noStartState rule => s!"no start state for rule {rule}"
  | .emptySequence => "empty element list"
  | .emptyBlock => "block without alternatives"
  | .setItem kind => s!"{kind} is not allowed in a lexer set"
  | .bypassCount state count =>
      s!"optional block at state {state} has {count} bypass alternatives instead of 1"

inductive Failure where
  | inconsistent (cause : Inconsistency)
  | undefinedRule (name : String)
  /-- An element of the other kind of grammar. -/
  | unsupported (element : String) (kind : GrammarKind)
  /-- A state that was removed or never there. -/
  | missingState (state : StateId)
deriving DecidableEq, Repr

def Failure.message : Failure → String
  | .inconsistent cause => "internal error: " ++ cause.message
  | .undefinedRule name => s!"internal error: rule {name} undefined"
  | .unsupported element kind => s!"internal error: {element} is not allowed in {kind.name} grammars"
  | .missingState state => s!"ATN state {state} does not exist"

end GrammarNetwork
