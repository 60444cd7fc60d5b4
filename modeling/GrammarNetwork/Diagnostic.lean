import GrammarNetwork.Grammar.Element

/-! Problems of a grammar that do not stop its network from being built: kinds, messages, and the
diagnostics that name a place in a file. -/

namespace GrammarNetwork

inductive Severity where
  | warning
  | error
deriving DecidableEq, Repr

def Severity.name : Severity → String
  | .warning => "warning"
  | .error => "error"

/-- The kinds of problems. -/
inductive Problem where
  | internalError
  | greedyWildcardLoop
  | referenceInLexerSet
  | invalidLiteralInLexerSet
  | emptyLeftRecursion
  | unknownCommand
  | missingArgument
  | unwantedArgument
  | emptyLoop
  | emptyOptional
  | invalidEscape
  | reservedToken
  | reservedChannel
  | reservedMode
  | emptyLiteral
  | unknownToken
  | unknownMode
  | unknownChannel
  | duplicateCommand
  | incompatibleCommands
  | collisionInSet
  | rangeInParser
  | propertyInRange
  | strayCharactersInRange
  | endOfInputLoop
deriving DecidableEq, Repr

namespace Problem

def all : List Problem :=
  [.internalError, .greedyWildcardLoop, .referenceInLexerSet, .invalidLiteralInLexerSet,
    .emptyLeftRecursion, .unknownCommand, .missingArgument, .unwantedArgument, .emptyLoop,
    .emptyOptional, .invalidEscape, .reservedToken, .reservedChannel, .reservedMode, .emptyLiteral,
    .unknownToken, .unknownMode, .unknownChannel, .duplicateCommand, .incompatibleCommands,
    .collisionInSet, .rangeInParser, .propertyInRange, .strayCharactersInRange, .endOfInputLoop]

/-- The identifier of the kind. -/
def name : Problem → String
  | .internalError => "INTERNAL_ERROR"
  | .greedyWildcardLoop => "EXPECTED_NON_GREEDY_WILDCARD_BLOCK"
  | .referenceInLexerSet => "UNSUPPORTED_REFERENCE_IN_LEXER_SET"
  | .invalidLiteralInLexerSet => "INVALID_LITERAL_IN_LEXER_SET"
  | .emptyLeftRecursion => "EPSILON_LR_FOLLOW"
  | .unknownCommand => "INVALID_LEXER_COMMAND"
  | .missingArgument => "MISSING_LEXER_COMMAND_ARGUMENT"
  | .unwantedArgument => "UNWANTED_LEXER_COMMAND_ARGUMENT"
  | .emptyLoop => "EPSILON_CLOSURE"
  | .emptyOptional => "EPSILON_OPTIONAL"
  | .invalidEscape => "INVALID_ESCAPE_SEQUENCE"
  | .reservedToken => "TOKEN_CONFLICTS_WITH_COMMON_CONSTANTS"
  | .reservedChannel => "CHANNEL_CONFLICTS_WITH_COMMON_CONSTANTS"
  | .reservedMode => "MODE_CONFLICTS_WITH_COMMON_CONSTANTS"
  | .emptyLiteral => "EMPTY_STRINGS_AND_SETS_NOT_ALLOWED"
  | .unknownToken => "CONSTANT_VALUE_IS_NOT_A_RECOGNIZED_TOKEN_NAME"
  | .unknownMode => "CONSTANT_VALUE_IS_NOT_A_RECOGNIZED_MODE_NAME"
  | .unknownChannel => "CONSTANT_VALUE_IS_NOT_A_RECOGNIZED_CHANNEL_NAME"
  | .duplicateCommand => "DUPLICATED_COMMAND"
  | .incompatibleCommands => "INCOMPATIBLE_COMMANDS"
  | .collisionInSet => "CHARACTERS_COLLISION_IN_SET"
  | .rangeInParser => "TOKEN_RANGE_IN_PARSER"
  | .propertyInRange => "UNICODE_PROPERTY_NOT_ALLOWED_IN_RANGE"
  | .strayCharactersInRange => "RANGE_PROBABLY_CONTAINS_NOT_IMPLIED_CHARACTERS"
  | .endOfInputLoop => "EOF_CLOSURE"

def ofName? (name : String) : Option Problem :=
  all.find? fun problem => problem.name == name

/-- The number shown to users. -/
def code : Problem → Nat
  | .internalError => 20
  | .greedyWildcardLoop => 131
  | .referenceInLexerSet => 183
  | .invalidLiteralInLexerSet => 144
  | .emptyLeftRecursion => 148
  | .unknownCommand => 149
  | .missingArgument => 150
  | .unwantedArgument => 151
  | .emptyLoop => 153
  | .emptyOptional => 154
  | .invalidEscape => 156
  | .reservedToken => 171
  | .reservedChannel => 172
  | .reservedMode => 173
  | .emptyLiteral => 174
  | .unknownToken => 175
  | .unknownMode => 176
  | .unknownChannel => 177
  | .duplicateCommand => 178
  | .incompatibleCommands => 179
  | .collisionInSet => 180
  | .rangeInParser => 181
  | .propertyInRange => 182
  | .strayCharactersInRange => 185
  | .endOfInputLoop => 186

def severity : Problem → Severity
  | .greedyWildcardLoop | .emptyOptional | .duplicateCommand
  | .incompatibleCommands | .collisionInSet | .strayCharactersInRange => .warning
  | _ => .error

/-- The message with `<arg>`, `<arg2>` and `<arg3>` in the places of its arguments. -/
def template : Problem → String
  | .internalError => "internal error: <arg> <arg2>"
  | .greedyWildcardLoop =>
      "greedy block ()<arg> contains wildcard; the non-greedy syntax ()<arg>? may be preferred"
  | .referenceInLexerSet => "rule reference <arg> is not currently supported in a set"
  | .invalidLiteralInLexerSet => "multi-character literals are not allowed in lexer sets: <arg>"
  | .emptyLeftRecursion =>
      "left recursive rule <arg> contains a left recursive alternative which can be followed by the empty string"
  | .unknownCommand =>
      "lexer command <arg> does not exist or is not supported by the current target"
  | .missingArgument => "missing argument for lexer command <arg>"
  | .unwantedArgument => "lexer command <arg> does not take any arguments"
  | .emptyLoop =>
      "rule <arg> contains a closure with at least one alternative that can match an empty string"
  | .emptyOptional =>
      "rule <arg> contains an optional block with at least one alternative that can match an empty string"
  | .invalidEscape => "invalid escape sequence <arg>"
  | .reservedToken => "cannot use or declare token with reserved name <arg>"
  | .reservedChannel => "cannot use or declare channel with reserved name <arg>"
  | .reservedMode => "cannot use or declare mode with reserved name <arg>"
  | .emptyLiteral => "string literals and sets cannot be empty: <arg>"
  | .unknownToken => "<arg> is not a recognized token name"
  | .unknownMode => "<arg> is not a recognized mode name"
  | .unknownChannel => "<arg> is not a recognized channel name"
  | .duplicateCommand => "duplicated command <arg>"
  | .incompatibleCommands => "incompatible commands <arg> and <arg2>"
  | .collisionInSet => "chars <arg> used multiple times in set <arg2>"
  | .rangeInParser => "token ranges not allowed in parser: <arg>..<arg2>"
  | .propertyInRange => "unicode property escapes not allowed in lexer charset range: <arg>"
  | .strayCharactersInRange =>
      "Range <arg>..<arg2> probably contains not implied characters <arg3>. Both bounds should be defined in lower or UPPER case"
  | .endOfInputLoop =>
      "rule <arg> contains a closure with at least one alternative that can match EOF"

end Problem

/-- The text with every occurrence of `pattern` replaced, from left to right. -/
def replaceAll (pattern replacement : List Char) : List Char → List Char
  | [] => []
  | first :: rest =>
      if pattern.isPrefixOf (first :: rest) then
        replacement ++ replaceAll pattern replacement (rest.drop (pattern.length - 1))
      else
        first :: replaceAll pattern replacement rest
termination_by text => text.length
decreasing_by
  all_goals simp only [List.length_drop, List.length_cons]
  all_goals omega

/-- The message of a kind with its arguments filled in, the third one first. A missing argument is
empty. -/
def Problem.render (problem : Problem) (arguments : List String) : String :=
  let fill (mark : String) (index : Nat) (text : List Char) : List Char :=
    replaceAll mark.toList (arguments[index]?.getD "").toList text
  String.ofList (fill "<arg>" 0 (fill "<arg2>" 1 (fill "<arg3>" 2 problem.template.toList)))

/-- A problem found in a file. -/
structure Diagnostic where
  problem : Problem
  file : String
  position : Option Position
  arguments : List String
deriving DecidableEq, Repr

namespace Diagnostic

def severity (diagnostic : Diagnostic) : Severity :=
  diagnostic.problem.severity

/-- The message without the place. -/
def message (diagnostic : Diagnostic) : String :=
  diagnostic.problem.render diagnostic.arguments

/-- The message with severity, number and place. -/
def toText (diagnostic : Diagnostic) : String :=
  let place := match diagnostic.position with
    | some position => diagnostic.file ++ ":" ++ position.toText
    | none => diagnostic.file
  s!"{diagnostic.severity.name}({diagnostic.problem.code}): {place}: {diagnostic.message}"

end Diagnostic

end GrammarNetwork
