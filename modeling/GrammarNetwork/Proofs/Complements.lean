import GrammarNetwork.Proofs.Canonical

/-! Complements in machine words. A complement is worked out by a cursor that runs over the gaps between intervals. The ends
of the intervals are numbers of 32 bits and the cursor has 64, so it can stand behind the largest of them, and it is back
within 32 bits wherever a gap begins. -/

namespace GrammarNetwork

/-- A signed word of so many bits has room for the number. -/
def Fits (bits : Nat) (value : Int) : Prop :=
  -2 ^ (bits - 1) ≤ value ∧ value < 2 ^ (bits - 1)

instance (bits : Nat) (value : Int) : Decidable (Fits bits value) :=
  inferInstanceAs (Decidable (_ ∧ _))

/-- The number in a word of so many bits, if it has room. -/
def narrow? (bits : Nat) (value : Int) : Option Int :=
  if Fits bits value then some value else none

theorem narrow?_of_fits {bits : Nat} {value : Int} (fits : Fits bits value) : narrow? bits value = some value :=
  if_pos fits

theorem fits_int32 (value : Int32) : Fits 32 value.toInt :=
  ⟨value.le_toInt, value.toInt_lt⟩

theorem Fits.between {first last value : Int} (atFirst : Fits 32 first) (atLast : Fits 32 last) (lower : first ≤ value)
    (upper : value ≤ last) : Fits 32 value :=
  ⟨Int.le_trans atFirst.1 lower, Int.lt_of_le_of_lt upper atLast.2⟩

theorem Fits.succ {value : Int} (fits : Fits 32 value) : Fits 64 (value + 1) := by
  simp only [Fits, Nat.reduceSub] at fits ⊢
  omega

namespace IntervalSet

/-- Adds to `result` what the range from `cursor` to `last` has beyond the intervals of an ascending list, interval by
interval. Every number that is computed has to fit in its word. -/
def sweep (last : Int) (result : IntervalSet) (cursor : Int) : List Interval → Option IntervalSet
  | [] =>
      if cursor ≤ last then do
        let first ← narrow? 32 cursor
        return result.insertRange first last
      else
        return result
  | head :: rest =>
      if head.last < cursor ∨ last < head.first then sweep last result cursor rest
      else if cursor < head.first then do
        let first ← narrow? 32 cursor
        let before ← narrow? 32 (head.first - 1)
        let next ← narrow? 64 (head.last + 1)
        sweep last (result.insertRange first before) next rest
      else do
        let next ← narrow? 64 (head.last + 1)
        sweep last result next rest

/-- The integers of `vocabulary` that are not in the set, worked out in words; none if a word has no room. -/
def complementInWords (set vocabulary : IntervalSet) : Option IntervalSet :=
  vocabulary.intervals.foldlM (fun result whole => sweep whole.last result whole.first set.intervals) .empty

/-- All integers of the set are numbers of 32 bits. -/
def InWords (set : IntervalSet) : Prop :=
  ∀ value, set.contains value = true → Fits 32 value

theorem InWords.ends {set : IntervalSet} (words : set.InWords) :
    ∀ interval ∈ set.intervals, Fits 32 interval.first ∧ Fits 32 interval.last := by
  intro interval listed
  have inhabited := set.inhabited interval listed
  exact ⟨words _ (contains_iff.mpr ⟨interval, listed, Int.le_refl _, inhabited⟩),
    words _ (contains_iff.mpr ⟨interval, listed, inhabited, Int.le_refl _⟩)⟩

theorem sweep_eq {cursor last : Int} {list : List Interval} (result : IntervalSet)
    (ends : ∀ interval ∈ list, Fits 32 interval.first ∧ Fits 32 interval.last) (atLast : Fits 32 last)
    (above : -2 ^ 31 ≤ cursor) :
    sweep last result cursor list = some (result.insertAll (Interval.gaps cursor last list)) := by
  have narrows {cursor bound : Int} (above : -2 ^ 31 ≤ cursor) (fits : Fits 32 bound) (below : cursor ≤ bound) :
      narrow? 32 cursor = some cursor :=
    narrow?_of_fits ⟨above, Int.lt_of_le_of_lt below fits.2⟩
  -- The cursor leaves the numbers of 32 bits at their upper end only, and then no gap follows.
  fun_induction Interval.gaps cursor last list generalizing result with
  | case1 cursor bounds =>
      simp only [sweep, if_pos bounds, narrows above atLast bounds]
      rfl
  | case2 cursor bounds =>
      simp only [sweep, if_neg bounds]
      rfl
  | case3 cursor head rest apart ih =>
      rw [List.forall_mem_cons] at ends
      rw [sweep, if_pos apart]
      exact ih result ends.2 above
  | case4 cursor head rest meets gap ih =>
      rw [List.forall_mem_cons] at ends
      obtain ⟨⟨atFirst, atEnd⟩, restEnds⟩ := ends
      have before : narrow? 32 (head.first - 1) = some (head.first - 1) :=
        narrows (by omega) atFirst (by omega)
      rw [sweep, if_neg meets, if_pos gap, narrows above atFirst (Int.le_of_lt gap), before,
        narrow?_of_fits atEnd.succ]
      exact ih (result.insertRange cursor (head.first - 1)) restEnds (by omega)
  | case5 cursor head rest meets covered ih =>
      rw [List.forall_mem_cons] at ends
      obtain ⟨⟨_, atEnd⟩, restEnds⟩ := ends
      rw [sweep, if_neg meets, if_neg covered, narrow?_of_fits atEnd.succ]
      exact ih result restEnds (by omega)

theorem complementInWords_eq {set vocabulary : IntervalSet} (words : set.InWords) (also : vocabulary.InWords) :
    complementInWords set vocabulary = some (set.complement vocabulary) := by
  have sweeps (list : List Interval) : ∀ result : IntervalSet,
      (∀ interval ∈ list, Fits 32 interval.first ∧ Fits 32 interval.last) →
      list.foldlM (fun result whole => sweep whole.last result whole.first set.intervals) result =
        some (result.insertAll (list.flatMap fun whole => Interval.gaps whole.first whole.last set.intervals)) := by
    induction list with
    | nil => exact fun _ _ => rfl
    | cons whole rest ih =>
        intro result ends
        rw [List.forall_mem_cons] at ends
        obtain ⟨⟨atFirst, atLast⟩, restEnds⟩ := ends
        rw [List.foldlM_cons, sweep_eq result words.ends atLast atFirst.1, List.flatMap_cons, insertAll_append]
        exact ih _ restEnds
  exact sweeps vocabulary.intervals .empty also.ends

end IntervalSet

/-- A set that the operations on sets come to when it is begun with nothing and all ranges have ends of 32 bits. -/
inductive WordSet where
  | empty
  | range (first last : Int32)
  | insert (set : WordSet) (value : Int32)
  | insertRange (set : WordSet) (first last : Int32)
  | union (set other : WordSet)
  | complement (set vocabulary : WordSet)

namespace WordSet

def set : WordSet → IntervalSet
  | .empty => .empty
  | .range first last => .ofRange first.toInt last.toInt
  | .insert words value => words.set.insert value.toInt
  | .insertRange words first last => words.set.insertRange first.toInt last.toInt
  | .union words other => words.set.union other.set
  | .complement words vocabulary => words.set.complement vocabulary.set

theorem inWords (words : WordSet) : words.set.InWords := by
  intro value contained
  induction words with
  | empty => simp [set, IntervalSet.contains_iff, IntervalSet.empty] at contained
  | range first last =>
      obtain ⟨lower, upper⟩ := IntervalSet.contains_ofRange.mp contained
      exact (fits_int32 first).between (fits_int32 last) lower upper
  | insert words added ih =>
      rcases IntervalSet.contains_insert.mp contained with rfl | before
      · exact fits_int32 added
      · exact ih before
  | insertRange words first last ih =>
      rcases IntervalSet.contains_insertRange.mp contained with ⟨lower, upper⟩ | before
      · exact (fits_int32 first).between (fits_int32 last) lower upper
      · exact ih before
  | union words other ih otherIh =>
      exact (IntervalSet.contains_union.mp contained).elim ih otherIh
  | complement words vocabulary _ vocabularyIh =>
      exact vocabularyIh (IntervalSet.contains_complement.mp contained).1

/-- However two sets are put together out of numbers of 32 bits, the smallest and the largest among them, the complement
of one in the other is worked out with no number that does not fit in its word. It has the integers of the other that the
one has not, its intervals are canonical, and they end at numbers of 32 bits. -/
theorem complement_exact (excluded vocabulary : WordSet) :
    IntervalSet.complementInWords excluded.set vocabulary.set = some (excluded.set.complement vocabulary.set) ∧
    (∀ value, (excluded.set.complement vocabulary.set).contains value = true ↔
      vocabulary.set.contains value = true ∧ ¬excluded.set.contains value = true) ∧
    Interval.Canonical (excluded.set.complement vocabulary.set).intervals ∧
    ∀ interval ∈ (excluded.set.complement vocabulary.set).intervals,
      Fits 32 interval.first ∧ Fits 32 interval.last := by
  refine ⟨IntervalSet.complementInWords_eq excluded.inWords vocabulary.inWords, fun value => ?_,
    IntervalSet.canonical _, (inWords (.complement excluded vocabulary)).ends⟩
  rw [IntervalSet.contains_complement, Bool.not_eq_true]

/-- The largest number of 32 bits is taken from all of them, and the cursor ends up behind it. -/
example : ((complement (.range Int32.maxValue Int32.maxValue) (.range Int32.minValue Int32.maxValue)).set).intervals =
    [⟨-2 ^ 31, 2 ^ 31 - 2⟩] := by decide +kernel

end WordSet

end GrammarNetwork
