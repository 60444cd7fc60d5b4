import GrammarNetwork.Bisection

/-! Tables of code points: sorted runs, each of a fixed step, searched by bisection. -/

namespace GrammarNetwork.Unicode

/-- Every `step`-th code point from `first` to `last`. -/
structure Run where
  first : Nat
  last : Nat
  step : Nat
deriving DecidableEq, Repr

namespace Run

/-- On which side of `code` the run lies. -/
def side (code : Nat) (run : Run) : Ordering :=
  if run.last < code then .lt else if code < run.first then .gt else .eq

def contains (run : Run) (code : Nat) : Bool :=
  decide (run.first ≤ code ∧ code ≤ run.last) && (code - run.first) % run.step == 0

end Run

/-- Whether a run of the sorted table has `code`. -/
def inTable (table : Array Run) (code : Nat) : Bool :=
  (bisect table (Run.side code) 0 table.size).any (Run.contains · code)

/-- A run of code points that are all moved by the same distance. -/
structure Shift where
  run : Run
  distance : Int
deriving DecidableEq, Repr

/-- The code point that the sorted table sends `code` to; one that is in no run stays. -/
def shiftBy (table : Array Shift) (code : Nat) : Int :=
  match bisect table (fun shift => shift.run.side code) 0 table.size with
  | some shift => if shift.run.contains code then code + shift.distance else code
  | none => code

end GrammarNetwork.Unicode
