/-! The parts of a rule: elements, alternatives and blocks, with where they stand in the grammar. -/

namespace GrammarNetwork

/-- A place in the text of a grammar: lines count from one, columns from zero. -/
structure Position where
  line : Nat
  column : Nat
deriving DecidableEq, Repr

def Position.toText (position : Position) : String :=
  s!"{position.line}:{position.column}"

/-- How often a block is repeated. -/
inductive Repetition where
  | optional
  | star
  | plus
deriving DecidableEq, Repr

def Repetition.symbol : Repetition → String
  | .optional => "?"
  | .star => "*"
  | .plus => "+"

/-- The suffix of a block, `*` or `*?`. -/
structure Suffix where
  repetition : Repetition
  greedy : Bool := true
deriving DecidableEq, Repr

/-- A lexer command such as `skip` or `pushMode(STRING)`. -/
structure Command where
  name : String
  argument : Option String := none
  position : Option Position := none
deriving DecidableEq, Repr

mutual

/-- What an element is. -/
inductive Form where
  /-- A reference to a token, `ID`. -/
  | token (name : String)
  /-- A reference to a rule, `expr`, or `expr` called with a precedence. -/
  | rule (name : String) (precedence : Option Int)
  /-- A literal with its quotes, `'abc'`. -/
  | literal (text : String)
  /-- A character set with its brackets, `[a-z]`. -/
  | charSet (text : String)
  /-- A range between two character literals, `'a'..'z'`. -/
  | range (first last : String)
  /-- One of several symbols, or any symbol but these. -/
  | set (items : List Element) (inverted : Bool)
  | wildcard
  /-- Code that runs when it is reached. Actions of lexers are numbered. -/
  | action (code : String) (index : Option Nat)
  /-- A condition in code, or the precedence condition of a left-recursive rule. -/
  | predicate (code : String) (index : Nat) (precedence : Option Int)
  | block (body : Block)

/-- A node of a rule. -/
structure Element where
  form : Form
  position : Option Position := none

/-- A sequence of elements and the lexer commands behind it. -/
structure Alternative where
  elements : List Element := []
  commands : List Command := []

/-- Alternatives to choose from, with or without a suffix. -/
structure Block where
  alternatives : List Alternative
  suffix : Option Suffix := none

end

namespace Element

/-- The name of the kind of element in messages. -/
def kindName (element : Element) : String :=
  match element.form with
  | .token _ => "token reference"
  | .rule _ _ => "rule reference"
  | .literal _ => "string literal"
  | .charSet _ => "char set"
  | .range _ _ => "range"
  | .set _ _ => "set"
  | .wildcard => "wildcard"
  | .action _ _ => "action"
  | .predicate _ _ _ => "predicate"
  | .block _ => "block"

/-- The condition that a precedence is at least `precedence`. -/
def precedencePredicate (precedence : Int) : Form :=
  .predicate s!"precpred(_ctx, {precedence})" 0 (some precedence)

end Element

mutual

/-- The element as a grammar has it. Sets and blocks list their parts with bars between them. -/
def Element.text : Element → String
  | ⟨.token name, _⟩ => name
  | ⟨.rule name _, _⟩ => name
  | ⟨.literal text, _⟩ => text
  | ⟨.charSet text, _⟩ => text
  | ⟨.range first last, _⟩ => first ++ ".." ++ last
  | ⟨.set items _, _⟩ => " | ".intercalate (elementTexts items)
  | ⟨.wildcard, _⟩ => "."
  | ⟨.action code _, _⟩ => "\x7b" ++ code ++ "\x7d"
  | ⟨.predicate code _ _, _⟩ => "\x7b" ++ code ++ "\x7d?"
  | ⟨.block ⟨alternatives, suffix⟩, _⟩ =>
      "(" ++ " | ".intercalate (alternativeTexts alternatives) ++ ")" ++
        (suffix.map fun suffix => suffix.repetition.symbol).getD ""

def elementTexts : List Element → List String
  | [] => []
  | element :: rest => element.text :: elementTexts rest

def alternativeTexts : List Alternative → List String
  | [] => []
  | ⟨elements, _⟩ :: rest => " ".intercalate (elementTexts elements) :: alternativeTexts rest

end

/-- Some alternative is a wildcard and nothing else. -/
def Block.hasWildcardAlternative (block : Block) : Bool :=
  block.alternatives.any fun alternative =>
    match alternative.elements with
    | [⟨.wildcard, _⟩] => true
    | _ => false

/-- An element with a mark that says whether it is an item of a set. -/
structure Occurrence where
  element : Element
  inSet : Bool

mutual

/-- The element and all that is inside it, in the order of the text. -/
def elementOccurrences (inSet : Bool) : Element → List Occurrence
  | ⟨.set items inverted, position⟩ =>
      ⟨⟨.set items inverted, position⟩, inSet⟩ :: listOccurrences true items
  | ⟨.block ⟨alternatives, suffix⟩, position⟩ =>
      ⟨⟨.block ⟨alternatives, suffix⟩, position⟩, inSet⟩ :: alternativeOccurrences alternatives
  | element => [⟨element, inSet⟩]

def listOccurrences (inSet : Bool) : List Element → List Occurrence
  | [] => []
  | element :: rest => elementOccurrences inSet element ++ listOccurrences inSet rest

def alternativeOccurrences : List Alternative → List Occurrence
  | [] => []
  | ⟨elements, _⟩ :: rest => listOccurrences false elements ++ alternativeOccurrences rest

end

/-- How many actions and predicates have been numbered. -/
structure Numbering where
  actions : Nat := 0
  predicates : Nat := 0

mutual

/-- Gives every predicate inside the element its number, and every action too if `numberActions`. -/
def numberElement (numberActions : Bool) : Element → StateM Numbering Element
  | ⟨.action code index, position⟩ => do
      if numberActions then
        let numbering ← get
        set { numbering with actions := numbering.actions + 1 }
        return ⟨.action code (some numbering.actions), position⟩
      else
        return ⟨.action code index, position⟩
  | ⟨.predicate code _ precedence, position⟩ => do
      let numbering ← get
      set { numbering with predicates := numbering.predicates + 1 }
      return ⟨.predicate code numbering.predicates precedence, position⟩
  | ⟨.set items inverted, position⟩ => do
      return ⟨.set (← numberElements numberActions items) inverted, position⟩
  | ⟨.block ⟨alternatives, suffix⟩, position⟩ => do
      return ⟨.block ⟨← numberAlternatives numberActions alternatives, suffix⟩, position⟩
  | element => return element

def numberElements (numberActions : Bool) : List Element → StateM Numbering (List Element)
  | [] => return []
  | element :: rest => do
      let element ← numberElement numberActions element
      let rest ← numberElements numberActions rest
      return element :: rest

def numberAlternatives (numberActions : Bool) : List Alternative → StateM Numbering (List Alternative)
  | [] => return []
  | ⟨elements, commands⟩ :: rest => do
      let elements ← numberElements numberActions elements
      let rest ← numberAlternatives numberActions rest
      return ⟨elements, commands⟩ :: rest

end

end GrammarNetwork
