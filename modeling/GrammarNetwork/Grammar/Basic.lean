import GrammarNetwork.Grammar.Element
import GrammarNetwork.Grammar.Symbol
import GrammarNetwork.Literal.Basic

/-! Grammars: rules in the order of their declaration and the symbol tables that go with them. -/

namespace GrammarNetwork

structure Rule where
  name : String
  alternatives : List Alternative
  isFragment : Bool := false
  mode : String := defaultModeName
  caseInsensitive : Option Bool := none
  leftRecursive : Bool := false
  position : Option Position := none

namespace Rule

def body (rule : Rule) : Block where
  alternatives := rule.alternatives

/-- The elements of the rule and all that is inside them, in the order of the text. -/
def occurrences (rule : Rule) : List Occurrence :=
  alternativeOccurrences rule.alternatives

end Rule

/-- A grammar whose references have been checked. The token with index `i` has type `i + 1`, the channel
with index `i` the first user channel plus `i`. -/
structure Grammar where
  kind : GrammarKind
  name : String
  fileName : String
  caseInsensitive : Bool
  rules : Array Rule
  tokens : List String
  channels : List String
  modes : List String
  actionCount : Nat

namespace Grammar

def isLexer (grammar : Grammar) : Bool :=
  grammar.kind == .lexer

/-- Whether the rule matches letters in both cases. -/
def isCaseInsensitive (grammar : Grammar) (rule : Rule) : Bool :=
  rule.caseInsensitive.getD grammar.caseInsensitive

def ruleIndex? (grammar : Grammar) (name : String) : Option Nat :=
  grammar.rules.findIdx? (·.name == name)

/-- The type of a token or, in a parser, of a literal. -/
def tokenType (grammar : Grammar) (name : String) : Int :=
  if name = "EOF" then endOfInput
  else
    match grammar.tokens.idxOf? name with
    | some index => minUserTokenType + index
    | none => invalidType

def maxTokenType (grammar : Grammar) : Int :=
  grammar.tokens.length

/-- How messages and listings show a token type. -/
def tokenName (grammar : Grammar) (type : Int) : String :=
  if type = endOfInput then "EOF"
  else if grammar.isLexer then Literal.charLiteral type
  else if type < minUserTokenType then toString type
  else
    match grammar.tokens[(type - minUserTokenType).toNat]? with
    | some name => if name.isEmpty then toString type else name
    | none => toString type

/-- The number of a channel; the two channels of every lexer are always there. -/
def channel? (grammar : Grammar) (name : String) : Option Int :=
  if name = "HIDDEN" then some hiddenChannel
  else if name = "DEFAULT_TOKEN_CHANNEL" then some defaultChannel
  else (grammar.channels.idxOf? name).map fun index => minUserChannel + index

def modeIndex? (grammar : Grammar) (name : String) : Option Nat :=
  grammar.modes.idxOf? name

/-- The rules of a mode with their indices, in the order of their declaration. -/
def modeRules (grammar : Grammar) (mode : String) : List (Rule × Nat) :=
  grammar.rules.toList.zipIdx.filter fun entry => entry.1.mode == mode

end Grammar

end GrammarNetwork
