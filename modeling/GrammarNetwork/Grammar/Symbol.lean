/-! Numbers of tokens, channels and modes, and the names that are the same in every grammar. -/

namespace GrammarNetwork

/-- Whether a grammar is for characters or for tokens. -/
inductive GrammarKind where
  | lexer
  | parser
deriving DecidableEq, Repr

def GrammarKind.name : GrammarKind → String
  | .lexer => "lexer"
  | .parser => "parser"

/-- Whether a number is a signed integer of 32 bits, as token types and precedences are. -/
def isInt32 (value : Int) : Bool :=
  decide (-2147483648 ≤ value ∧ value ≤ 2147483647)

/-- The token type of the end of the input. -/
def endOfInput : Int := -1

/-- Stands for the empty word in a set of symbols. -/
def emptyWord : Int := -2

/-- The token type of a name that is no token. -/
def invalidType : Int := 0

def minUserTokenType : Int := 1

def defaultMode : Int := 0

def hiddenChannel : Int := 1

def defaultChannel : Int := 0

def minUserChannel : Int := 2

def defaultModeName : String := "DEFAULT_MODE"

/-- The names that no lexer can define anew. -/
def commonConstants : List (String × Int) :=
  [("HIDDEN", hiddenChannel), ("DEFAULT_TOKEN_CHANNEL", defaultChannel), (defaultModeName, defaultMode),
    ("SKIP", -3), ("MORE", -2), ("EOF", endOfInput)]

def commonConstant? (name : String) : Option Int :=
  commonConstants.lookup name

end GrammarNetwork
