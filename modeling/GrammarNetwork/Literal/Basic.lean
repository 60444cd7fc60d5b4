import GrammarNetwork.IntervalSet
import GrammarNetwork.Unicode.Property

/-! Character and string literals of grammars: what `'a'`, `'\n'` or `'\u{1F600}'` stand for, and how a
code point is written as a literal. -/

namespace GrammarNetwork.Literal

open Unicode

/-- The code point of the one-letter escape with this letter. -/
def simpleEscape? : Char → Option Nat
  | 'n' => some 0x0A
  | 'r' => some 0x0D
  | 't' => some 0x09
  | 'b' => some 0x08
  | 'f' => some 0x0C
  | '\\' => some 0x5C
  | _ => none

def hexDigitValue (digit : Char) : Nat :=
  if digit.isDigit then digit.toNat - '0'.toNat
  else if 'a' ≤ digit then digit.toNat - 'a'.toNat + 10
  else digit.toNat - 'A'.toNat + 10

/-- The code point that hexadecimal digits denote. At least one digit is needed, and the number must lie
in the code space. -/
def hexCodePoint? (digits : List Char) : Option Nat :=
  if digits.isEmpty || !digits.all isHexDigit then none
  else
    let value := digits.foldl (fun sum digit => sum * 16 + hexDigitValue digit) 0
    if value ≤ maxCodePoint then some value else none

/-- What is left of `text` after the character `last` at its end is taken off. -/
def dropLast? (last : Char) (text : List Char) : Option (List Char) :=
  if text.getLast? = some last then some text.dropLast else none

/-- The code point that the inside of a character literal denotes: a character or one escape. -/
def codePoint? : List Char → Option Nat
  | '\\' :: 'u' :: '{' :: rest => (dropLast? '}' rest).bind hexCodePoint?
  | '\\' :: 'u' :: rest => if rest.length = 4 then hexCodePoint? rest else none
  | ['\\', '\''] => some 0x27
  | ['\\', letter] => simpleEscape? letter
  | '\\' :: _ => none
  | [character] => some character.toNat
  | _ => none

/-- The inside of a text in single quotes. -/
def unquote? : List Char → Option (List Char)
  | '\'' :: rest => dropLast? '\'' rest
  | _ => none

/-- The code point of a literal in quotes, if it denotes exactly one. -/
def charValue? (literal : String) : Option Nat :=
  (unquote? literal.toList).bind codePoint?

/-- How many characters the first character or escape of a string literal takes. -/
def pieceLength? : List Char → Option Nat
  | '\\' :: 'u' :: '{' :: rest =>
      match rest.findIdx? (· == '}') with
      | some count => if (rest.take count).all isHexDigit then some (count + 4) else none
      | none => none
  | '\\' :: 'u' :: rest =>
      if 4 ≤ rest.length ∧ (rest.take 4).all isHexDigit then some 6 else none
  | ['\\'] => none
  | '\\' :: _ => some 2
  | _ => some 1

/-- The characters that the inside of a string literal denotes, piece by piece. -/
def decode? : List Char → Option (List Char)
  | [] => some []
  | first :: rest => do
      let count ← pieceLength? (first :: rest)
      let code ← codePoint? ((first :: rest).take count)
      let character ← scalar? code
      let remaining ← decode? (rest.drop (count - 1))
      some (character :: remaining)
termination_by text => text.length
decreasing_by
  simp only [List.length_drop, List.length_cons]
  omega

/-- The text that a string literal in quotes denotes. Surrogates cannot occur in a text. -/
def stringValue? (literal : String) : Option String := do
  let inside ← unquote? literal.toList
  let characters ← decode? inside
  some (String.ofList characters)

/-- Upper case hexadecimal digits, filled with zeros up to `width`. -/
def hexText (width value : Nat) : List Char :=
  let digits := (Nat.toDigits 16 value).map Char.toUpper
  List.replicate (width - digits.length) '0' ++ digits

/-- A code point as it stands inside a literal. -/
def encodeChar (code : Nat) : List Char :=
  match code with
  | 0x0A => ['\\', 'n']
  | 0x0D => ['\\', 'r']
  | 0x09 => ['\\', 't']
  | 0x08 => ['\\', 'b']
  | 0x0C => ['\\', 'f']
  | 0x5C => ['\\', '\\']
  | 0x27 => ['\\', '\'']
  | _ =>
      if 0x20 ≤ code ∧ code < 0x7F then [Char.ofNat code]
      else if code ≤ 0xFFFF then ['\\', 'u'] ++ hexText 4 code
      else ['\\', 'u', '{'] ++ hexText 6 code ++ ['}']

/-- The literal of a code point. Negative numbers have none and give a mark. -/
def charLiteral (code : Int) : String :=
  if code < 0 then "'<INVALID>'"
  else String.ofList (['\''] ++ encodeChar code.toNat ++ ['\''])

/-- The literal of a range, written as one literal when both ends are the same. -/
def rangeLiteral (first last : Int) : String :=
  if first = last then charLiteral first else charLiteral first ++ ".." ++ charLiteral last

/-- The intervals of a set of code points, each as a literal. -/
def setLiteral (set : IntervalSet) : String :=
  ", ".intercalate (set.intervals.map fun interval => rangeLiteral interval.first interval.last)

end GrammarNetwork.Literal
