import GrammarNetwork.Construction.CharRange
import GrammarNetwork.Literal.Escape

/-! Character sets such as `[a-z_\p{Alpha}]`. The text is cut into characters and escapes, and these are
read from left to right with at most one code point or property still to be added. -/

namespace GrammarNetwork

open Literal

/-- A character or an escape of a character set. -/
inductive CharSetToken where
  | character (character : Char)
  | codePoint (code : Nat)
  | property (set : IntervalSet)
  | invalid (text : List Char)
deriving DecidableEq

/-- Cuts the inside of a character set into characters and escapes. -/
def charSetTokens : List Char → List CharSetToken
  | [] => []
  | first :: rest =>
      if first = '\\' then
        let escape := readEscape (first :: rest)
        let token := match escape.meaning with
          | .codePoint code => .codePoint code
          | .property set => .property set
          | .invalid => .invalid ((first :: rest).take escape.length)
        token :: charSetTokens (rest.drop (escape.length - 1))
      else
        .character first :: charSetTokens rest
termination_by text => text.length
decreasing_by
  all_goals simp only [List.length_drop, List.length_cons]
  all_goals omega

/-- What has been read and not yet added. -/
inductive Pending where
  | nothing
  /-- A code point that may start a range, and does if `opensRange`. -/
  | codePoint (code : Int) (opensRange : Bool)
  | property (set : IntervalSet)
deriving DecidableEq

def Pending.opensRange : Pending → Bool
  | .codePoint _ opensRange => opensRange
  | _ => false

/-- The text between the brackets. Brackets that are missing are not missed. -/
def charSetInside (text : List Char) : List Char :=
  let inside := match text with
    | '[' :: rest => rest
    | text => text
  (dropLast? ']' inside).getD inside

namespace Build

/-- Adds what is still to be added. -/
def applyPending (plan : Plan) (root : String) (position : Option Position) (set : IntervalSet) :
    Pending → Build IntervalSet
  | .nothing => return set
  | .codePoint code _ => addRange plan root position set code code
  | .property property => return set.union property

/-- Takes a code point: it closes a range that is open, or may open one itself. -/
def takeCodePoint (plan : Plan) (root : String) (position : Option Position) (set : IntervalSet)
    (pending : Pending) (code : Int) : Build (IntervalSet × Pending) := do
  match pending with
  | .codePoint first true =>
      if code < first then report plan .emptyLiteral position [rangeLiteral first code]
      return (← addRange plan root position set first code, .nothing)
  | pending => return (← applyPending plan root position set pending, .codePoint code false)

/-- Reads the tokens of a character set, or reports the first that is not allowed. A dash between two code
points makes a range; one at either end of the set is a character. -/
def scanTokens (plan : Plan) (root : String) (position : Option Position) :
    (atStart : Bool) → List CharSetToken → IntervalSet → Pending → Build (Option (IntervalSet × Pending))
  | _, [], set, pending => return some (set, pending)
  | atStart, token :: rest, set, pending =>
      match token with
      | .invalid text => do
          report plan .invalidEscape position [String.ofList text]
          return none
      | .property property =>
          if pending.opensRange then do
            report plan .propertyInRange position [root]
            return none
          else do
            let set ← applyPending plan root position set pending
            scanTokens plan root position false rest set (.property property)
      | .codePoint code => do
          let (set, pending) ← takeCodePoint plan root position set pending code
          scanTokens plan root position false rest set pending
      | .character character =>
          if character = '-' ∧ !atStart ∧ !rest.isEmpty ∧ !pending.opensRange ∧ pending ≠ .nothing then
            match pending with
            | .property _ => do
                report plan .propertyInRange position [root]
                return none
            | .codePoint code _ => scanTokens plan root position false rest set (.codePoint code true)
            | .nothing => scanTokens plan root position false rest set .nothing
          else do
            let (set, pending) ← takeCodePoint plan root position set pending character.toNat
            scanTokens plan root position false rest set pending

/-- The characters of a character set. One that is wrong is reported and has none. -/
def charSet (plan : Plan) (text : String) (position : Option Position) : Build IntervalSet := do
  let tokens := charSetTokens (charSetInside text.toList)
  match ← scanTokens plan text position true tokens .empty .nothing with
  | none => return .empty
  | some (set, pending) => do
      let set ← applyPending plan text position set pending
      if set.isEmpty then report plan .emptyLiteral position ["[]"]
      return set

end Build

end GrammarNetwork
