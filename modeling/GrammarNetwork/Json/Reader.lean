import GrammarNetwork.Json.Comment
import GrammarNetwork.Json.Number
import GrammarNetwork.Json.Value
import GrammarNetwork.Literal.Basic

/-! Reads JSON texts with comments. The text must be one value with nothing but white space around it;
arrays and objects may nest 127 deep. -/

namespace GrammarNetwork.Json

/-- Takes something off the front of a text, or fails. -/
abbrev Reader := StateT (List Char) Option

namespace Reader

def next : Reader Char := do
  match ← get with
  | [] => failure
  | first :: rest => do
      set rest
      return first

def peek? : Reader (Option Char) :=
  return (← get).head?

def isBlank (character : Char) : Bool :=
  character == ' ' || character == '\t' || character == '\n' || character == '\r'

def skipBlanks : Reader Unit :=
  modify (List.dropWhile isBlank)

def expect (text : List Char) : Reader Unit := do
  let rest ← get
  if text.isPrefixOf rest then set (rest.drop text.length) else failure

/-- The digits at the front of the text. -/
def digits : Reader (List Nat) := do
  let rest ← get
  set (rest.dropWhile Char.isDigit)
  return (rest.takeWhile Char.isDigit).map fun digit => digit.toNat - '0'.toNat

def digits1 : Reader (List Nat) := do
  let found ← digits
  if found.isEmpty then failure else return found

/-- Digits before the point: no zero stands in front of others. -/
def whole : Reader (List Nat) := do
  let found ← digits1
  if found.head? = some 0 ∧ found.length ≠ 1 then failure else return found

/-- Takes `character` if the text starts with it. -/
def accept (character : Char) : Reader Bool := do
  match ← get with
  | [] => return false
  | first :: rest =>
      if first = character then do
        set rest
        return true
      else
        return false

/-- The exponent after its letter. -/
def exponentBody : Reader Int := do
  match ← peek? with
  | some '-' => do
      discard next
      return -digitsValue (← digits1)
  | some '+' => do
      discard next
      return digitsValue (← digits1)
  | _ => return digitsValue (← digits1)

def exponent : Reader (Option Int) := do
  match ← peek? with
  | some 'e' | some 'E' => do
      discard next
      some <$> exponentBody
  | _ => return none

def numeral : Reader Numeral := do
  let negative ← accept '-'
  let whole ← whole
  let fraction ← if ← accept '.' then some <$> digits1 else pure none
  let exponent ← exponent
  return { negative, whole, fraction, exponent }

def number : Reader Value := do
  let numeral ← numeral
  if numeral.isFinite then return .number numeral.integer? else failure

/-- Four hexadecimal digits. -/
def hex4 : Reader Nat := do
  let rest ← get
  let digits := rest.take 4
  if digits.length = 4 ∧ digits.all Unicode.isHexDigit then do
    set (rest.drop 4)
    return digits.foldl (fun sum digit => sum * 16 + Literal.hexDigitValue digit) 0
  else
    failure

/-- The character of a `\u` escape; two of them can make a surrogate pair. -/
def unicodeEscape : Reader Char := do
  let unit ← hex4
  if 0xD800 ≤ unit ∧ unit ≤ 0xDBFF then do
    expect ['\\', 'u']
    let low ← hex4
    if 0xDC00 ≤ low ∧ low ≤ 0xDFFF then
      return Char.ofNat (0x10000 + (unit - 0xD800) * 0x400 + (low - 0xDC00))
    else
      failure
  else
    match Unicode.scalar? unit with
    | some character => return character
    | none => failure

def escape : Reader Char := do
  match ← next with
  | '"' => return '"'
  | '\\' => return '\\'
  | '/' => return '/'
  | 'b' => return '\x08'
  | 'f' => return '\x0c'
  | 'n' => return '\n'
  | 'r' => return '\r'
  | 't' => return '\t'
  | 'u' => unicodeEscape
  | _ => failure

/-- The characters of a string up to its closing quote. Every round takes a character, so `count` rounds
are enough for a text that is no longer. -/
def stringCharacters : (count : Nat) → Reader (List Char)
  | 0 => failure
  | count + 1 => do
      match ← next with
      | '"' => return []
      | '\\' => do
          let character ← escape
          return character :: (← stringCharacters count)
      | character =>
          if character.toNat < 0x20 then failure
          else return character :: (← stringCharacters count)

/-- A string after its opening quote, in a text of at most `bound` characters. -/
def stringBody (bound : Nat) : Reader String := do
  return String.ofList (← stringCharacters bound)

/-- Items with commas between them, up to the character `close`. Every item takes a character, so `count`
rounds are enough for a text that is no longer. -/
def items {α : Type} (close : Char) (item : Reader α) : (count : Nat) → Reader (List α)
  | 0 => failure
  | count + 1 => do
      let first ← item
      skipBlanks
      match ← next with
      | ',' => return first :: (← items close item count)
      | other => if other = close then return [first] else failure

/-- A list of items in brackets, after the opening one, in a text of at most `bound` characters. -/
def enclosed {α : Type} (bound : Nat) (close : Char) (item : Reader α) : Reader (List α) := do
  skipBlanks
  if ← accept close then return []
  else items close item bound

/-- A field of an object whose values `value` reads. -/
def field (bound : Nat) (value : Reader Value) : Reader (String × Value) := do
  skipBlanks
  expect ['"']
  let key ← stringBody bound
  skipBlanks
  expect [':']
  return (key, ← value)

/-- A value that is no array and no object. -/
def scalar (bound : Nat) : Reader Value := do
  match ← peek? with
  | some '"' => do
      discard next
      return .string (← stringBody bound)
  | some 't' => do
      expect "true".toList
      return .bool true
  | some 'f' => do
      expect "false".toList
      return .bool false
  | some 'n' => do
      expect "null".toList
      return .null
  | _ => number

/-- A value in which arrays and objects nest at most `depth` deep, with white space in front of it, in a
text of at most `bound` characters. -/
def value (bound : Nat) : (depth : Nat) → Reader Value
  | 0 => do
      skipBlanks
      scalar bound
  | depth + 1 => do
      skipBlanks
      match ← peek? with
      | some '[' => do
          discard next
          return .array (← enclosed bound ']' (value bound depth))
      | some '{' => do
          discard next
          return .object (Fields.ofText (← enclosed bound '}' (field bound (value bound depth))))
      | _ => scalar bound

end Reader

def maxDepth : Nat := 127

/-- The value of a JSON text with comments. -/
def parse? (text : String) : Option Value := do
  let blanked ← blankComments .plain text.toList
  let (value, rest) ← (Reader.value blanked.length maxDepth).run blanked
  if rest.all Reader.isBlank then some value else none

end GrammarNetwork.Json
