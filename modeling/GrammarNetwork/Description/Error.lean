/-! What can be wrong with the description of a grammar. -/

namespace GrammarNetwork

inductive DescriptionError where
  | emptyElement
  | invalidElement (text : String)
  | elementShape
  | suffixShape
  | invalidSuffix (text : String)
  | itemsShape
  | precedenceShape
  | referenceShape
  | predicateWithoutPrecedence
  | unknownElement
  | commandShape
  | invalidCommand (text : String)
  | emptyCommand
  | commandsShape
  | alternativeShape
  | alternativesShape
  | noAlternatives
  | inRule (rule : String) (cause : DescriptionError)
  | ruleShape (rule : String)
  | ruleWithoutAlternatives (rule : String)
  | modeShape (rule : String)
  | namesShape (key : String)
  | grammarShape
  | unknownKind
  | rulesShape
deriving DecidableEq, Repr

namespace DescriptionError

def message : DescriptionError → String
  | .emptyElement => "Elements must not be empty strings"
  | .invalidElement text => s!"'{text}' is not a valid element"
  | .elementShape => "Elements must be strings or objects"
  | .suffixShape => "Block suffix must be a string"
  | .invalidSuffix text => s!"'{text}' is not a valid block suffix"
  | .itemsShape => "Set items must be an array"
  | .precedenceShape => "Precedence must be an integer"
  | .referenceShape => "Rule reference must be a string"
  | .predicateWithoutPrecedence => "A predicate object needs a precedence"
  | .unknownElement => "Element objects must contain one of 'block', 'set', 'rule' or 'predicate'"
  | .commandShape => "Lexer commands must be strings"
  | .invalidCommand text => s!"'{text}' is not a valid lexer command"
  | .emptyCommand => "Lexer commands must not be empty"
  | .commandsShape => "Lexer commands must be an array"
  | .alternativeShape => "Alternatives must be arrays or objects"
  | .alternativesShape => "Alternatives must be given as an array"
  | .noAlternatives => "A block must have at least one alternative"
  | .inRule rule cause => s!"Invalid rule '{rule}': " ++ cause.message
  | .ruleShape rule => s!"Rule '{rule}' must be an array or an object"
  | .ruleWithoutAlternatives rule => s!"Rule '{rule}' has no 'alts'"
  | .modeShape rule => s!"Mode of rule '{rule}' must be a string"
  | .namesShape key => s!"'{key}' must be an array of strings"
  | .grammarShape => "A grammar description must be an object"
  | .unknownKind => "'kind' must be either \"lexer\" or \"parser\""
  | .rulesShape => "'rules' must be an object mapping rule names to alternatives"

end DescriptionError

/-- Why a description could not be loaded. -/
inductive LoadCause where
  | cannotOpen (reason : String)
  | invalidJson
  | invalid (error : DescriptionError)
deriving DecidableEq, Repr

def LoadCause.message : LoadCause → String
  | .cannotOpen reason => "Cannot open file: " ++ reason
  | .invalidJson => "Invalid JSON syntax"
  | .invalid error => error.message

/-- A description at `path` that could not be loaded. -/
structure LoadError where
  path : String
  cause : LoadCause
deriving DecidableEq, Repr

def LoadError.message (error : LoadError) : String :=
  s!"ParsingError in {error.path}: {error.cause.message}"

end GrammarNetwork
