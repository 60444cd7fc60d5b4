import GrammarNetwork.Construction.Basic
import GrammarNetwork.Unicode.CaseRange

/-! Ranges of characters in lexer rules, with both cases of letters where case does not matter. -/

namespace GrammarNetwork

open Unicode

/-- What was found out about a range, so that its second case form is not reported again. -/
structure RangeStatus where
  collision : Bool
  mixedCase : Bool
deriving DecidableEq, Repr

/-- The label for a range of characters. -/
def rangeLabel (first last : Int) : Label :=
  if first = last then .atom first else .range first last

namespace Build

/-- Whether the current rule matches letters in both cases. -/
def isCaseInsensitive (plan : Plan) : Build Bool := do
  let rule := (← get).rule.bind fun index => plan.grammar.rules[index]?
  return (rule.map plan.grammar.isCaseInsensitive).getD false

/-- Warns about a range that has characters other than letters between its ends of different case. -/
def reportStrays (plan : Plan) (range : CaseRange) (position : Option Position) : Build Unit :=
  match range.strays with
  | [] => pure ()
  | strays =>
      report plan .strayCharactersInRange position
        [codePointText range.first, codePointText range.last, String.ofList strays]

/-- The transition that matches a range of characters. -/
def rangeTransition (plan : Plan) (target : StateId) (first last : Int) (position : Option Position) :
    Build Transition := do
  let range := CaseRange.classify first last
  reportStrays plan range position
  if (← isCaseInsensitive plan) && !range.isSingle then
    let symbols := (IntervalSet.ofRange range.lowerFirst range.lowerLast).insertRange
      range.upperFirst range.upperLast
    return ⟨target, .set symbols⟩
  else
    return ⟨target, rangeLabel first last⟩

/-- The ends of a range between two literals. A range that cannot be used is reported. -/
def rangeEnds? (plan : Plan) (first last : String) (position : Option Position) :
    Build (Option (Int × Int)) := do
  let low := Literal.charValue? first
  let high := Literal.charValue? last
  if low.isNone then report plan .invalidLiteralInLexerSet position [first]
  if high.isNone then report plan .invalidLiteralInLexerSet position [last]
  match low, high with
  | some low, some high =>
      if high < low then do
        report plan .emptyLiteral position [first ++ ".." ++ last]
        return none
      else
        return some (low, high)
  | _, _ => return none

/-- How a range is written in a message about a set. -/
def rangeText (first last : Int) : String :=
  if first = last then codePointText first else codePointText first ++ "-" ++ codePointText last

/-- Adds a range as it is to a set written as `root`. A character that the set has already is reported. -/
def addExactRange (plan : Plan) (root : String) (position : Option Position) (set : IntervalSet)
    (first last : Int) (previous : Option RangeStatus) : Build (IntervalSet × RangeStatus) := do
  let range := CaseRange.classify first last
  if !previous.any RangeStatus.mixedCase then reportStrays plan range position
  let reported := previous.any RangeStatus.collision
  let collides := !reported && set.meetsRange first last
  if collides then report plan .collisionInSet position [rangeText first last, root]
  return (set.insertRange first last, ⟨reported || collides, range.mixedCase⟩)

/-- Adds a range to a set written as `root`, in both cases if the current rule matches both. -/
def addRange (plan : Plan) (root : String) (position : Option Position) (set : IntervalSet)
    (first last : Int) : Build IntervalSet := do
  if ← isCaseInsensitive plan then
    let range := CaseRange.classify first last
    reportStrays plan range position
    let status : RangeStatus := ⟨false, range.mixedCase⟩
    if range.isSingle then do
      let (set, _) ← addExactRange plan root position set first last (some status)
      return set
    else do
      let (set, status) ←
        addExactRange plan root position set range.lowerFirst range.lowerLast (some status)
      let (set, _) ←
        addExactRange plan root position set range.upperFirst range.upperLast (some status)
      return set
  else do
    let (set, _) ← addExactRange plan root position set first last none
    return set

end Build

end GrammarNetwork
