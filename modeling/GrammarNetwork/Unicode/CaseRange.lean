import GrammarNetwork.Unicode.Alphabetic
import GrammarNetwork.Unicode.CaseMapping
import GrammarNetwork.Unicode.Scalar

/-! Ranges of characters where case does not matter. A range such as `a..f` stands for `a..f` and `A..F`;
one whose ends have no case, or whose two case forms are not parallel, stays as it is. -/

namespace GrammarNetwork.Unicode

/-- A range of code points with the case forms of its ends. -/
structure CaseRange where
  first : Int
  last : Int
  lowerFirst : Int
  upperFirst : Int
  lowerLast : Int
  upperLast : Int
  mixedCase : Bool
deriving DecidableEq, Repr

namespace CaseRange

/-- The case forms of both ends. The case is mixed when one end is its own lower case and the other is not. -/
def classify (first last : Int) : CaseRange where
  first
  last
  lowerFirst := toLower first
  upperFirst := toUpper first
  lowerLast := toLower last
  upperLast := toUpper last
  mixedCase := (toLower first == first) != (toLower last == last)

/-- Whether the range is used as it is and not as a lower case range and an upper case range. -/
def isSingle (range : CaseRange) : Bool :=
  (range.lowerFirst == range.upperFirst && range.lowerLast == range.upperLast) ||
    range.mixedCase ||
    range.lowerLast - range.lowerFirst != range.upperLast - range.upperFirst

/-- The characters of a mixed case range of ASCII that are no letters, its last end left out: for `A..z`
these are the characters between `Z` and `a`. -/
def strays (range : CaseRange) : List Char :=
  if range.mixedCase ∧ range.first ≤ 0x7F ∧ range.last ≤ 0x7F then
    (((List.range range.last.toNat).drop range.first.toNat).filterMap scalar?).filter
      fun character => !isAlphabetic character
  else
    []

end CaseRange

end GrammarNetwork.Unicode
