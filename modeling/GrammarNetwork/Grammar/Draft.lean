import GrammarNetwork.Grammar.Basic

/-! Drafts of grammars. A draft collects rules and declarations; building it checks them and fills the
symbol tables. -/

namespace GrammarNetwork

/-- Why the rules of a draft are no grammar. -/
inductive GrammarError where
  | noRules
  | duplicateRule (name : String)
  | missingRule (name referencedBy : String)
  | missingToken (name referencedBy : String)
  | fragmentInParser (rule : String)
  | modeInParser (rule : String)
deriving DecidableEq, Repr

def GrammarError.message : GrammarError → String
  | .noRules => "The grammar does not contain any rules"
  | .duplicateRule name => s!"The rule '{name}' is defined more than once"
  | .missingRule name referencedBy =>
      s!"The rule '{name}' is referenced by '{referencedBy}' but never defined"
  | .missingToken name referencedBy =>
      s!"The token '{name}' is referenced by '{referencedBy}' but never defined"
  | .fragmentInParser rule =>
      s!"The rule '{rule}' is not allowed in a parser grammar: fragment rules are only allowed in lexer grammars"
  | .modeInParser rule =>
      s!"The rule '{rule}' is not allowed in a parser grammar: modes are only allowed in lexer grammars"

structure Draft where
  kind : GrammarKind
  name : String
  fileName : Option String := none
  caseInsensitive : Bool := false
  /-- Whether a token of a parser is defined by being used. -/
  implicitTokens : Bool := true
  rules : List Rule := []
  tokens : List String := []
  channels : List String := []
  modes : List String := []

namespace Draft

/-- Appends `name` unless the list has it. -/
def addNew (names : List String) (name : String) : List String :=
  if name ∈ names then names else names ++ [name]

/-- Checks the rules one by one; `defined` holds the names before them. -/
def checkRules (kind : GrammarKind) (defined : List String) : List Rule → Except GrammarError Unit
  | [] => .ok ()
  | rule :: rest =>
      if rule.name ∈ defined then .error (.duplicateRule rule.name)
      else if kind = .parser ∧ rule.isFragment then .error (.fragmentInParser rule.name)
      else if kind = .parser ∧ rule.mode ≠ defaultModeName then .error (.modeInParser rule.name)
      else checkRules kind (rule.name :: defined) rest

/-- Checks that what an element of rule `referencedBy` refers to exists. Tokens in the sets of a lexer are
left to the construction of the network. -/
def checkReference (draft : Draft) (referencedBy : String) (occurrence : Occurrence) :
    Except GrammarError Unit :=
  let isRule (name : String) : Bool := draft.rules.any (·.name == name)
  match occurrence.element.form with
  | .rule name _ => if isRule name then .ok () else .error (.missingRule name referencedBy)
  | .token name =>
      if name = "EOF" ∨ occurrence.inSet then .ok ()
      else
        match draft.kind with
        | .lexer => if isRule name then .ok () else .error (.missingRule name referencedBy)
        | .parser =>
            if draft.implicitTokens ∨ name ∈ draft.tokens then .ok ()
            else .error (.missingToken name referencedBy)
  | _ => .ok ()

def checkReferences (draft : Draft) : Except GrammarError Unit :=
  draft.rules.forM fun rule => rule.occurrences.forM (draft.checkReference rule.name)

/-- The token that an element of a parser rule defines. -/
def definedToken? (draft : Draft) (element : Element) : Option String :=
  match element.form with
  | .token name => if draft.implicitTokens then some name else none
  | .literal text => some text
  | _ => none

/-- The names that become tokens, in order and with repetitions: first the declared ones, then the rules
of a lexer that are no fragments, or what the rules of a parser use. -/
def tokenCandidates (draft : Draft) : List String :=
  draft.tokens ++
    match draft.kind with
    | .lexer => (draft.rules.filter fun rule => !rule.isFragment).map Rule.name
    | .parser => draft.rules.flatMap fun rule =>
        rule.occurrences.filterMap fun occurrence => draft.definedToken? occurrence.element

/-- The tokens of the grammar, each once. The end of the input is none of them. -/
def tokenTable (draft : Draft) : List String :=
  (draft.tokenCandidates.filter (· != "EOF")).foldl addNew []

def channelTable (draft : Draft) : List String :=
  draft.channels.foldl addNew []

/-- The modes of the grammar: the default one, the declared ones, and those that rules are in. -/
def modeTable (draft : Draft) : List String :=
  (draft.modes ++ draft.rules.map Rule.mode).foldl addNew [defaultModeName]

def numberRules (numberActions : Bool) : List Rule → StateM Numbering (List Rule)
  | [] => return []
  | rule :: rest => do
      let alternatives ← numberAlternatives numberActions rule.alternatives
      let rest ← numberRules numberActions rest
      return { rule with alternatives } :: rest

/-- Checks the draft and fills the symbol tables. Predicates, and the actions of a lexer, are numbered in
the order of the text. -/
def build (draft : Draft) : Except GrammarError Grammar := do
  if draft.rules.isEmpty then throw .noRules
  checkRules draft.kind [] draft.rules
  draft.checkReferences
  let (rules, numbering) := (numberRules (draft.kind == .lexer) draft.rules).run {}
  return {
    kind := draft.kind
    name := draft.name
    fileName := draft.fileName.getD (draft.name ++ ".g4")
    caseInsensitive := draft.caseInsensitive
    rules := rules.toArray
    tokens := draft.tokenTable
    channels := draft.channelTable
    modes := draft.modeTable
    actionCount := numbering.actions }

end Draft

end GrammarNetwork
