import GrammarNetwork.Construction.CharSet
import GrammarNetwork.Construction.Command

/-! The smallest pieces of a network, one for each kind of element that is no block. In a lexer they match
characters, in a parser tokens. -/

namespace GrammarNetwork

open Literal

namespace Build

/-- A call of a rule. What follows the call is reached only through the end of the rule. -/
def ruleLeaf (plan : Plan) (name : String) (precedence : Option Int) (position : Option Position) :
    Build Handle := do
  match plan.grammar.ruleIndex? name with
  | none => do
      report plan .internalError position [s!"Rule {name} undefined"]
      throw (.undefinedRule name)
  | some rule => do
      let (start, _) ← ruleStates plan rule
      let left ← newState .basic
      let right ← newState .basic
      addTransition left ⟨start, .call rule (precedence.getD 0) right⟩
      return ⟨left, right⟩

/-- A reference to a token. The tokens of a lexer are its rules. -/
def tokenLeaf (plan : Plan) (name : String) (position : Option Position) : Build Handle := do
  match plan.kind with
  | .parser => atom (.atom (plan.grammar.tokenType name))
  | .lexer =>
      if name = "EOF" then atom (.atom endOfInput)
      else ruleLeaf plan name none position

/-- One transition after the other, a character each, from `state` on. -/
def characterChain (plan : Plan) (position : Option Position) : StateId → List Char → Build StateId
  | state, [] => return state
  | state, character :: rest => do
      let right ← newState .basic
      let transition ← rangeTransition plan right character.toNat character.toNat position
      addTransition state transition
      characterChain plan position right rest

/-- A literal: a token of a parser, or the characters of a text. A literal of a lexer that is wrong or empty
is reported and matches nothing. -/
def literalLeaf (plan : Plan) (text : String) (position : Option Position) : Build Handle := do
  match plan.kind with
  | .parser => atom (.atom (plan.grammar.tokenType text))
  | .lexer => do
      let left ← newState .basic
      match stringValue? text with
      | none => do
          report plan .invalidEscape position [text]
          return ⟨left, left⟩
      | some value =>
          if value.isEmpty then do
            report plan .emptyLiteral position [text]
            return ⟨left, left⟩
          else
            return ⟨left, ← characterChain plan position left value.toList⟩

def charSetLeaf (plan : Plan) (text : String) (position : Option Position) : Build Handle := do
  match plan.kind with
  | .parser => throw (.unsupported "char set" plan.grammar.kind)
  | .lexer => do
      let set ← charSet plan text position
      atom (.set set)

/-- A range of characters. A parser has none; there the first end counts as a token. -/
def rangeLeaf (plan : Plan) (first last : String) (position : Option Position) : Build Handle := do
  match plan.kind with
  | .parser => do
      report plan .rangeInParser position [first, last]
      atom (.atom (plan.grammar.tokenType first))
  | .lexer => do
      let left ← newState .basic
      let right ← newState .basic
      match ← rangeEnds? plan first last position with
      | some (low, high) => do
          let transition ← rangeTransition plan right low high position
          addTransition left transition
      | none => pure ()
      return ⟨left, right⟩

/-- Adds an item of a lexer set, written as `root`, to the characters before it. -/
def addSetItem (plan : Plan) (root : String) (outer : Option Position) (set : IntervalSet)
    (item : Element) : Build IntervalSet := do
  let position := item.position.or outer
  match item.form with
  | .range first last =>
      match ← rangeEnds? plan first last position with
      | some (low, high) => addRange plan root position set low high
      | none => return set
  | .charSet text => return set.union (← charSet plan text item.position)
  | .literal text =>
      match charValue? text with
      | some code => addRange plan root position set code code
      | none => do
          report plan .invalidLiteralInLexerSet position [text]
          return set
  | .token name => do
      report plan .referenceInLexerSet position [name]
      return set
  | _ => fail plan (.setItem item.kindName)

def addSetItems (plan : Plan) (root : String) (outer : Option Position) :
    IntervalSet → List Element → Build IntervalSet
  | set, [] => return set
  | set, item :: rest => do
      let set ← addSetItem plan root outer set item
      addSetItems plan root outer set rest

/-- The label of a lexer set. One interval needs no set. -/
def lexerSetLabel (set : IntervalSet) (inverted : Bool) : Label :=
  if inverted then .notSet set
  else
    match set.intervals with
    | [interval] => rangeLabel interval.first interval.last
    | _ => .set set

/-- The token types of the items of a parser set. -/
def tokenSet (grammar : Grammar) (items : List Element) : IntervalSet :=
  items.foldl (fun set item => set.insert (grammar.tokenType item.text)) .empty

def setLeaf (plan : Plan) (items : List Element) (inverted : Bool) (position : Option Position) :
    Build Handle := do
  match plan.kind with
  | .parser =>
      let set := tokenSet plan.grammar items
      atom (if inverted then .notSet set else .set set)
  | .lexer => do
      let root := Element.text ⟨.set items inverted, position⟩
      let set ← addSetItems plan root position .empty items
      atom (lexerSetLabel set inverted)

def actionElement (plan : Plan) (index : Option Nat) : Build Handle := do
  let rule ← currentRule plan
  match plan.kind with
  | .parser => atom (.action rule none false)
  | .lexer => do
      let number ← match index with
        | some index => pure index
        | none => newActionNumber
      actionLeaf plan (.custom rule number)

/-- A predicate. It depends on its context if its code has a dollar sign. -/
def predicateLeaf (plan : Plan) (code : String) (index : Nat) (precedence : Option Int) :
    Build Handle := do
  match precedence with
  | some level => atom (.precedence level)
  | none => do
      let rule ← currentRule plan
      atom (.predicate rule index (code.toList.contains '$'))

/-- A command of a lexer; a parser has none. -/
def command (plan : Plan) (command : Command) : Build (Handle × Option StateId) := do
  match plan.kind with
  | .parser => throw (.unsupported "lexer command" plan.grammar.kind)
  | .lexer => lexerCommand plan command

/-- The action that a text of code comes to in a lexer; a parser has none. -/
def codeAction (plan : Plan) (code : String) : Build Handle := do
  match plan.kind with
  | .parser => throw (.unsupported "lexer command" plan.grammar.kind)
  | .lexer => inlineAction plan code

/-- Puts the commands of an alternative behind its elements. -/
def attachCommands (plan : Plan) (body commands : Handle) : Build Handle := do
  match plan.kind with
  | .parser => throw (.unsupported "lexer command" plan.grammar.kind)
  | .lexer => do
      epsilon body.right commands.left
      return ⟨body.left, commands.right⟩

end Build

end GrammarNetwork
