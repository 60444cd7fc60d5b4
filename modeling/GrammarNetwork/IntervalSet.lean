import GrammarNetwork.Bisection

/-! Finite sets of integers as intervals. A set keeps its intervals in ascending order, each with at
least one integer and with a gap to the next, so two sets with the same elements are the same value. -/

namespace GrammarNetwork

/-- The integers from `first` to `last`. There are none when `last < first`. -/
structure Interval where
  first : Int
  last : Int
deriving DecidableEq, Repr

namespace Interval

def isEmpty (interval : Interval) : Bool :=
  decide (interval.last < interval.first)

def size (interval : Interval) : Nat :=
  (interval.last - interval.first + 1).toNat

/-- Some integer lies after `left` and before `right`. -/
def Before (left right : Interval) : Prop :=
  left.last + 1 < right.first

instance (left right : Interval) : Decidable (Before left right) :=
  inferInstanceAs (Decidable (_ < _))

/-- The smallest interval that covers both. -/
def join (left right : Interval) : Interval :=
  ⟨min left.first right.first, max left.last right.last⟩

/-- On which side of `value` the interval lies. -/
def side (value : Int) (interval : Interval) : Ordering :=
  if interval.last < value then .lt else if value < interval.first then .gt else .eq

/-- Puts `added` at its place in an ascending list, joined with every interval it touches. -/
def insertInto (added : Interval) : List Interval → List Interval
  | [] => [added]
  | head :: rest =>
      if head.Before added then head :: insertInto added rest
      else if added.Before head then added :: head :: rest
      else insertInto (added.join head) rest

/-- The parts of `first..last` that no interval of the ascending list covers. -/
def gaps (first last : Int) : List Interval → List Interval
  | [] => if first ≤ last then [⟨first, last⟩] else []
  | head :: rest =>
      if head.last < first ∨ last < head.first then gaps first last rest
      else if first < head.first then ⟨first, head.first - 1⟩ :: gaps (head.last + 1) last rest
      else gaps (head.last + 1) last rest

theorem before_insertInto (bound added : Interval) (list : List Interval)
    (left : bound.Before added) (all : ∀ interval ∈ list, bound.Before interval) :
    ∀ interval ∈ insertInto added list, bound.Before interval := by
  induction list generalizing added with
  | nil => simpa [insertInto] using left
  | cons head rest ih =>
      have atHead : bound.Before head := all head (by simp)
      have atRest : ∀ interval ∈ rest, bound.Before interval :=
        fun interval member => all interval (by simp [member])
      simp only [insertInto]
      split
      · intro interval member
        rcases List.mem_cons.mp member with same | later
        · exact same ▸ atHead
        · exact ih added left atRest interval later
      · split
        · intro interval member
          rcases List.mem_cons.mp member with same | later
          · exact same ▸ left
          · exact all interval later
        · refine ih (added.join head) ?_ atRest
          simp only [Before, join] at left atHead ⊢
          omega

theorem pairwise_insertInto (added : Interval) (list : List Interval)
    (ordered : list.Pairwise Before) (inhabited : added.first ≤ added.last)
    (allInhabited : ∀ interval ∈ list, interval.first ≤ interval.last) :
    (insertInto added list).Pairwise Before := by
  induction list generalizing added with
  | nil => simp [insertInto]
  | cons head rest ih =>
      obtain ⟨fromHead, restOrdered⟩ := List.pairwise_cons.mp ordered
      have headInhabited : head.first ≤ head.last := allInhabited head (by simp)
      have restInhabited : ∀ interval ∈ rest, interval.first ≤ interval.last :=
        fun interval member => allInhabited interval (by simp [member])
      simp only [insertInto]
      split
      · rename_i earlier
        exact List.pairwise_cons.mpr
          ⟨before_insertInto head added rest earlier fromHead,
            ih added restOrdered inhabited restInhabited⟩
      · split
        · rename_i later
          refine List.pairwise_cons.mpr ⟨?_, ordered⟩
          intro interval member
          rcases List.mem_cons.mp member with same | inRest
          · exact same ▸ later
          · have beyond := fromHead interval inRest
            simp only [Before] at later beyond ⊢
            omega
        · refine ih (added.join head) restOrdered ?_ restInhabited
          simp only [join]
          omega

theorem inhabited_insertInto (added : Interval) (list : List Interval)
    (inhabited : added.first ≤ added.last)
    (allInhabited : ∀ interval ∈ list, interval.first ≤ interval.last) :
    ∀ interval ∈ insertInto added list, interval.first ≤ interval.last := by
  induction list generalizing added with
  | nil => simpa [insertInto] using inhabited
  | cons head rest ih =>
      have restInhabited : ∀ interval ∈ rest, interval.first ≤ interval.last :=
        fun interval member => allInhabited interval (by simp [member])
      simp only [insertInto]
      split
      · intro interval member
        rcases List.mem_cons.mp member with same | later
        · exact same ▸ allInhabited head (by simp)
        · exact ih added inhabited restInhabited interval later
      · split
        · intro interval member
          rcases List.mem_cons.mp member with same | later
          · exact same ▸ inhabited
          · exact allInhabited interval later
        · refine ih (added.join head) ?_ restInhabited
          have headInhabited : head.first ≤ head.last := allInhabited head (by simp)
          simp only [join]
          omega

end Interval

/-- A finite set of integers: inhabited intervals, ascending, with a gap between neighbours. -/
structure IntervalSet where
  intervals : List Interval
  ordered : intervals.Pairwise Interval.Before
  inhabited : ∀ interval ∈ intervals, interval.first ≤ interval.last
deriving DecidableEq

namespace IntervalSet

def empty : IntervalSet :=
  ⟨[], by simp, by simp⟩

instance : EmptyCollection IntervalSet := ⟨empty⟩

instance : Inhabited IntervalSet := ⟨empty⟩

/-- Adds every integer of `first..last`; an empty range changes nothing. -/
def insertRange (set : IntervalSet) (first last : Int) : IntervalSet :=
  if bounds : first ≤ last then
    { intervals := Interval.insertInto ⟨first, last⟩ set.intervals
      ordered := Interval.pairwise_insertInto ⟨first, last⟩ set.intervals set.ordered bounds set.inhabited
      inhabited := Interval.inhabited_insertInto ⟨first, last⟩ set.intervals bounds set.inhabited }
  else
    set

def insert (set : IntervalSet) (value : Int) : IntervalSet :=
  set.insertRange value value

def insertAll (set : IntervalSet) (added : List Interval) : IntervalSet :=
  added.foldl (fun result interval => result.insertRange interval.first interval.last) set

def union (left right : IntervalSet) : IntervalSet :=
  left.insertAll right.intervals

def ofRange (first last : Int) : IntervalSet :=
  empty.insertRange first last

/-- The union of the given intervals, whatever their order and overlap. -/
def ofIntervals (added : List Interval) : IntervalSet :=
  empty.insertAll added

def contains (set : IntervalSet) (value : Int) : Bool :=
  (bisect set.intervals.toArray (Interval.side value) 0 set.intervals.length).isSome

/-- Some integer of `first..last` is in the set. -/
def meetsRange (set : IntervalSet) (first last : Int) : Bool :=
  decide (first ≤ last) &&
    set.intervals.any fun interval => decide (interval.first ≤ last ∧ first ≤ interval.last)

def isEmpty (set : IntervalSet) : Bool :=
  set.intervals.isEmpty

/-- The number of integers in the set. -/
def size (set : IntervalSet) : Nat :=
  set.intervals.foldr (fun interval total => interval.size + total) 0

/-- The integers of `vocabulary` that are not in the set. -/
def complement (set vocabulary : IntervalSet) : IntervalSet :=
  ofIntervals (vocabulary.intervals.flatMap fun interval =>
    Interval.gaps interval.first interval.last set.intervals)

/-- Writes the intervals in order, in braces when there are several: `5`, `1..3`, `{1..3, 7}`. -/
def toText (set : IntervalSet) : String :=
  let parts := set.intervals.map fun interval =>
    if interval.first = interval.last then toString interval.first
    else s!"{interval.first}..{interval.last}"
  let body := ", ".intercalate parts
  if set.intervals.length > 1 then "\x7b" ++ body ++ "\x7d" else body

end IntervalSet

end GrammarNetwork
