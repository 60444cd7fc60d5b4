import GrammarNetwork.Description.Error
import GrammarNetwork.Grammar.Element
import GrammarNetwork.Literal.Basic

/-! The texts of a description: elements such as `'a'..'z'`, `[a-z]` or `expr`, suffixes such as `*?`, and
lexer commands such as `pushMode(STR)`. -/

namespace GrammarNetwork.Description

open Literal Unicode

/-- Whether the text stands between single quotes. -/
def isQuoted (text : List Char) : Bool :=
  (unquote? text).isSome

/-- Where `'..'` stands first. -/
def rangeMark? : List Char → Option Nat
  | [] => none
  | '\'' :: '.' :: '.' :: '\'' :: _ => some 0
  | _ :: rest => (rangeMark? rest).map (· + 1)

/-- Splits `'a'..'z'` into its two literals. -/
def splitRange? (text : List Char) : Option (List Char × List Char) := do
  if !isQuoted text then none
  let mark ← rangeMark? text
  let first := text.take (mark + 1)
  let last := text.drop (mark + 3)
  if isQuoted first && isQuoted last then some (first, last) else none

def isNameCharacter (character : Char) : Bool :=
  isAlphabetic character || isNumeric character || character == '_'

/-- What is left of `text` after `ending` at its end is taken off. -/
def dropEnd? (ending text : List Char) : Option (List Char) :=
  if ending.isSuffixOf text then some (text.take (text.length - ending.length)) else none

/-- A name: tokens start with an upper case letter, and all other names are rules. -/
def readName (text : List Char) : Except DescriptionError Form :=
  if !text.all isNameCharacter then .error (.invalidElement (String.ofList text))
  else if text.head?.any isUppercase then .ok (.token (String.ofList text))
  else .ok (.rule (String.ofList text) none)

/-- An action or a predicate in braces. -/
def readCode? : List Char → Option Form
  | '{' :: inside =>
      match dropEnd? ['}', '?'] inside with
      | some code => some (.predicate (String.ofList code) 0 none)
      | none => (dropEnd? ['}'] inside).map fun code => .action (String.ofList code) none
  | _ => none

/-- An element that a description gives as a text. -/
def readElementText (text : List Char) : Except DescriptionError Form :=
  if text.isEmpty then .error .emptyElement
  else
    match splitRange? text with
    | some (first, last) => .ok (.range (String.ofList first) (String.ofList last))
    | none =>
        if isQuoted text then .ok (.literal (String.ofList text))
        else if text.head? = some '[' ∧ text.getLast? = some ']' then .ok (.charSet (String.ofList text))
        else if text = ['.'] then .ok .wildcard
        else
          match readCode? text with
          | some form => .ok form
          | none => readName text

def readSuffix (text : String) : Except DescriptionError Suffix :=
  match text with
  | "?" => .ok ⟨.optional, true⟩
  | "*" => .ok ⟨.star, true⟩
  | "+" => .ok ⟨.plus, true⟩
  | "??" => .ok ⟨.optional, false⟩
  | "*?" => .ok ⟨.star, false⟩
  | "+?" => .ok ⟨.plus, false⟩
  | _ => .error (.invalidSuffix text)

def trimmed (text : List Char) : String :=
  String.ofList (trim isWhitespace text)

/-- A lexer command; what stands in parentheses behind its name is its argument. -/
def readCommand (text : List Char) : Except DescriptionError Command :=
  let name := text.takeWhile (· != '(')
  match text.dropWhile (· != '(') with
  | [] => if text.isEmpty then .error .emptyCommand else .ok { name := trimmed text }
  | _ :: rest =>
      match dropLast? ')' rest with
      | some argument =>
          if name.isEmpty then .error (.invalidCommand (String.ofList text))
          else .ok { name := trimmed name, argument := some (trimmed argument) }
      | none => .error (.invalidCommand (String.ofList text))

end GrammarNetwork.Description
