import GrammarNetwork.Literal.Basic

/-! Escapes inside character sets such as `[\n\u00E9\p{Alpha}]`. Besides the escapes of string literals
they have `\-`, `\]` and the Unicode properties `\p{..}` with their complements `\P{..}`. -/

namespace GrammarNetwork.Literal

open Unicode

/-- What an escape stands for. -/
inductive EscapeMeaning where
  | invalid
  | codePoint (code : Nat)
  | property (set : IntervalSet)
deriving DecidableEq

/-- An escape at the start of a text and the number of characters it takes, backslash included. -/
structure Escape where
  meaning : EscapeMeaning
  length : Nat
deriving DecidableEq

/-- The escape `\u` before `rest`. An escape that never ends reaches to the end of the text. -/
def unicodeEscape (rest : List Char) : Escape :=
  let ofDigits (digits : List Char) (length : Nat) : Escape :=
    match hexCodePoint? digits with
    | some code => ⟨.codePoint code, length⟩
    | none => ⟨.invalid, length⟩
  match rest with
  | '{' :: digits =>
      match digits.findIdx? (· == '}') with
      | some count => ofDigits (digits.take count) (count + 4)
      | none => ⟨.invalid, digits.length + 3⟩
  | _ =>
      if rest.length < 4 then ⟨.invalid, rest.length + 2⟩
      else ofDigits (rest.take 4) 6

/-- Everything in the code space that is not in `set`. -/
def complementInCodeSpace (set : IntervalSet) : IntervalSet :=
  set.complement (.ofRange 0 maxCodePoint)

/-- The escape `\p`, or `\P` if `inverted`, before `rest`. -/
def propertyEscape (inverted : Bool) (rest : List Char) : Escape :=
  match rest with
  | '{' :: name =>
      match name.findIdx? (· == '}') with
      | some count =>
          match property? (String.ofList (name.take count)) with
          | some set =>
              ⟨.property (if inverted then complementInCodeSpace set else set), count + 4⟩
          | none => ⟨.invalid, count + 4⟩
      | none => ⟨.invalid, name.length + 3⟩
  | _ => ⟨.invalid, 2⟩

/-- Reads the escape that `text` starts with. A text that does not start with a backslash and a further
character is invalid as a whole. -/
def readEscape (text : List Char) : Escape :=
  match text with
  | '\\' :: 'u' :: rest => unicodeEscape rest
  | '\\' :: 'p' :: rest => propertyEscape false rest
  | '\\' :: 'P' :: rest => propertyEscape true rest
  | '\\' :: '-' :: _ => ⟨.codePoint 0x2D, 2⟩
  | '\\' :: ']' :: _ => ⟨.codePoint 0x5D, 2⟩
  | '\\' :: letter :: _ =>
      match simpleEscape? letter with
      | some code => ⟨.codePoint code, 2⟩
      | none => ⟨.invalid, 2⟩
  | _ => ⟨.invalid, text.length⟩

end GrammarNetwork.Literal
