/-! Characters and their code points. -/

namespace GrammarNetwork.Unicode

/-- The character with this code point. Surrogates and numbers outside the code space have none. -/
def scalar? (code : Nat) : Option Char :=
  if valid : code.isValidChar then some (Char.ofNatAux code valid) else none

/-- The character with this code point, for code points that are integers. -/
def scalarOfInt? (code : Int) : Option Char :=
  if code < 0 then none else scalar? code.toNat

/-- The largest code point. -/
def maxCodePoint : Nat := 0x10FFFF

/-- The character with this code point, or the number itself where there is no such character. -/
def codePointText (code : Int) : String :=
  match scalarOfInt? code with
  | some character => character.toString
  | none => toString code

/-- The text without the white space at its ends. -/
def trim (isBlank : Char → Bool) (text : List Char) : List Char :=
  ((text.dropWhile isBlank).reverse.dropWhile isBlank).reverse

end GrammarNetwork.Unicode
