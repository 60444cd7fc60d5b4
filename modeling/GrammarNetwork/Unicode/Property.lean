import GrammarNetwork.IntervalSet
import GrammarNetwork.Unicode.Alphabetic
import GrammarNetwork.Unicode.Lowercase
import GrammarNetwork.Unicode.Numeric
import GrammarNetwork.Unicode.Scalar
import GrammarNetwork.Unicode.Uppercase
import GrammarNetwork.Unicode.Whitespace

/-! Unicode properties as sets of code points. The set of a property is collected from a predicate on
characters, so surrogates are in none; only `ASCII` and `Any` are plain ranges of code points. -/

namespace GrammarNetwork.Unicode

/-- Puts `code` in front of ascending runs that all start above it. -/
def extendRuns (code : Nat) : List Interval → List Interval
  | [] => [⟨code, code⟩]
  | head :: rest =>
      if head.first = code + 1 then ⟨code, head.last⟩ :: rest else ⟨code, code⟩ :: head :: rest

/-- The runs of numbers below `count` that satisfy `holds`, in front of `runs`. -/
def collectRuns (holds : Nat → Bool) : Nat → List Interval → List Interval
  | 0, runs => runs
  | code + 1, runs => collectRuns holds code (if holds code then extendRuns code runs else runs)

/-- Runs that start at `bound` or above, each inhabited and with a gap to the next. -/
def RunsFrom (bound : Nat) (runs : List Interval) : Prop :=
  runs.Pairwise Interval.Before ∧ (∀ run ∈ runs, run.first ≤ run.last) ∧
    ∀ run ∈ runs, (bound : Int) ≤ run.first

theorem RunsFrom.weaken {code : Nat} {runs : List Interval} (formed : RunsFrom (code + 1) runs) :
    RunsFrom code runs :=
  ⟨formed.1, formed.2.1, fun run member => by have := formed.2.2 run member; omega⟩

theorem runsFrom_extendRuns (code : Nat) (runs : List Interval) (formed : RunsFrom (code + 1) runs) :
    RunsFrom code (extendRuns code runs) := by
  obtain ⟨ordered, inhabited, above⟩ := formed
  cases runs with
  | nil => simp [extendRuns, RunsFrom]
  | cons head rest =>
      obtain ⟨fromHead, restOrdered⟩ := List.pairwise_cons.mp ordered
      have headInhabited := inhabited head (by simp)
      have headAbove := above head (by simp)
      simp only [extendRuns]
      split
      · refine ⟨List.pairwise_cons.mpr ⟨?_, restOrdered⟩, ?_, ?_⟩
        · intro run member
          exact fromHead run member
        · intro run member
          rcases List.mem_cons.mp member with same | later
          · subst same
            simp only
            omega
          · exact inhabited run (by simp [later])
        · intro run member
          rcases List.mem_cons.mp member with same | later
          · subst same
            simp
          · have := above run (by simp [later])
            omega
      · rename_i apart
        refine ⟨List.pairwise_cons.mpr ⟨?_, ordered⟩, ?_, ?_⟩
        · intro run member
          rcases List.mem_cons.mp member with same | later
          · subst same
            simp only [Interval.Before]
            omega
          · have beyond := fromHead run later
            simp only [Interval.Before] at beyond ⊢
            omega
        · intro run member
          rcases List.mem_cons.mp member with same | later
          · subst same
            simp
          · exact inhabited run later
        · intro run member
          rcases List.mem_cons.mp member with same | later
          · subst same
            simp
          · have := above run later
            omega

theorem runsFrom_collectRuns (holds : Nat → Bool) (count : Nat) (runs : List Interval)
    (formed : RunsFrom count runs) : RunsFrom 0 (collectRuns holds count runs) := by
  induction count generalizing runs with
  | zero => exact formed
  | succ code ih =>
      simp only [collectRuns]
      apply ih
      split
      · exact runsFrom_extendRuns code runs formed
      · exact formed.weaken

theorem runsFrom_nil (bound : Nat) : RunsFrom bound [] := by
  simp [RunsFrom]

def setOfRuns (runs : List Interval) (formed : RunsFrom 0 runs) : IntervalSet where
  intervals := runs
  ordered := formed.1
  inhabited := formed.2.1

/-- The code points of the characters that satisfy `holds`. -/
def collect (holds : Char → Bool) : IntervalSet :=
  setOfRuns (collectRuns (fun code => (scalar? code).any holds) (maxCodePoint + 1) [])
    (runsFrom_collectRuns _ _ _ (runsFrom_nil _))

/-- The C0 and C1 control characters and delete. -/
def isControl (character : Char) : Bool :=
  decide (character.toNat ≤ 0x1F ∨ 0x7F ≤ character.toNat ∧ character.toNat ≤ 0x9F)

def isHexDigit (character : Char) : Bool :=
  character.isDigit || decide ('a' ≤ character ∧ character ≤ 'f') ||
    decide ('A' ≤ character ∧ character ≤ 'F')

/-- The code points of the property with this name or short name. -/
def property? (name : String) : Option IntervalSet :=
  if name ∈ ["Alphabetic", "Alpha"] then some (collect isAlphabetic)
  else if name ∈ ["Lowercase", "Lower"] then some (collect isLowercase)
  else if name ∈ ["Uppercase", "Upper"] then some (collect isUppercase)
  else if name ∈ ["White_Space", "WSpace", "space"] then some (collect isWhitespace)
  else if name ∈ ["N", "Number"] then some (collect isNumeric)
  else if name ∈ ["Cc", "Control"] then some (collect isControl)
  else if name ∈ ["ASCII_Hex_Digit", "AHex"] then some (collect isHexDigit)
  else if name = "ASCII" then some (.ofRange 0 0x7F)
  else if name = "Any" then some (.ofRange 0 maxCodePoint)
  else none

end GrammarNetwork.Unicode
