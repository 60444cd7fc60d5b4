import Mathlib.Data.List.Basic
import GrammarNetwork.IntervalSet

/-! Membership: bisection finds an integer in a set when one of the intervals has it, and adding to a set takes
nothing out of it. -/

namespace GrammarNetwork

/-- The entries that lie before the key come first, and those that lie behind it come last. -/
def Ascends {α : Type} (entries : Array α) (side : α → Ordering) : Prop :=
  ∀ (first second : Nat) (earlier later : α), entries[first]? = some earlier → entries[second]? = some later →
    first < second → (side later = .lt → side earlier = .lt) ∧ (side earlier = .gt → side later = .gt)

theorem bisect_isSome {α : Type} {entries : Array α} {side : α → Ordering} (ascends : Ascends entries side)
    (low high : Nat) (bound : high ≤ entries.size) :
    (bisect entries side low high).isSome = true ↔ ∃ index entry, low ≤ index ∧ index < high ∧
      entries[index]? = some entry ∧ side entry = .eq := by
  fun_induction bisect entries side low high with
  | case1 low high less absent =>
      rw [Array.getElem?_eq_none_iff] at absent
      omega
  | case2 low high less entry found level =>
      exact ⟨fun _ => ⟨(low + high) / 2, entry, by omega, by omega, found, level⟩, fun _ => rfl⟩
  | case3 low high less entry found before ih =>
      rw [ih bound]
      constructor
      · rintro ⟨index, other, lower, upper, listed, level⟩
        exact ⟨index, other, by omega, upper, listed, level⟩
      · rintro ⟨index, other, lower, upper, listed, level⟩
        refine ⟨index, other, ?_, upper, listed, level⟩
        -- All that lies ahead of the middle lies before the key too.
        rcases Nat.lt_trichotomy index ((low + high) / 2) with left | rfl | right
        · have order := (ascends _ _ _ _ listed found left).1 before
          rw [level] at order
          cases order
        · rw [found, Option.some.injEq] at listed
          rw [listed, level] at before
          cases before
        · exact right
  | case4 low high less entry found behind ih =>
      rw [ih (by omega)]
      constructor
      · rintro ⟨index, other, lower, upper, listed, level⟩
        exact ⟨index, other, lower, by omega, listed, level⟩
      · rintro ⟨index, other, lower, upper, listed, level⟩
        refine ⟨index, other, lower, ?_, listed, level⟩
        -- All that lies behind the middle lies behind the key too.
        rcases Nat.lt_trichotomy index ((low + high) / 2) with left | rfl | right
        · exact left
        · rw [found, Option.some.injEq] at listed
          rw [listed, level] at behind
          cases behind
        · have order := (ascends _ _ _ _ found listed right).2 behind
          rw [level] at order
          cases order
  | case5 low high crossed =>
      constructor
      · intro found
        cases found
      · rintro ⟨index, _, lower, upper, _⟩
        omega

/-- What is found is an entry that is level with the key. -/
theorem bisect_eq_some {α : Type} {entries : Array α} {side : α → Ordering} {entry : α} (low high : Nat)
    (found : bisect entries side low high = some entry) : entry ∈ entries ∧ side entry = .eq := by
  fun_induction bisect entries side low high with
  | case1 | case5 => cases found
  | case2 low high less other there level =>
      cases found
      exact ⟨Array.mem_of_getElem? there, level⟩
  | case3 low high less other there before ih => exact ih found
  | case4 low high less other there behind ih => exact ih found

namespace Interval

theorem side_eq {value : Int} {interval : Interval} :
    interval.side value = .eq ↔ interval.first ≤ value ∧ value ≤ interval.last := by
  unfold side
  split
  · simp only [reduceCtorEq, false_iff]
    omega
  · split
    · simp only [reduceCtorEq, false_iff]
      omega
    · simp only [true_iff]
      omega

theorem side_lt {value : Int} {interval : Interval} : interval.side value = .lt ↔ interval.last < value := by
  unfold side
  split
  · simpa
  · split <;> simp_all

theorem side_gt {value : Int} {interval : Interval} (inhabited : interval.first ≤ interval.last) :
    interval.side value = .gt ↔ value < interval.first := by
  unfold side
  split
  · simp only [reduceCtorEq, false_iff]
    omega
  · split <;> simp_all

/-- What is inserted comes to what was there, nothing else. -/
theorem mem_insertInto {value : Int} (added : Interval) (list : List Interval) (inhabited : added.first ≤ added.last)
    (allInhabited : ∀ interval ∈ list, interval.first ≤ interval.last) :
    (∃ interval ∈ insertInto added list, interval.first ≤ value ∧ value ≤ interval.last) ↔
      (added.first ≤ value ∧ value ≤ added.last) ∨
        ∃ interval ∈ list, interval.first ≤ value ∧ value ≤ interval.last := by
  induction list generalizing added with
  | nil => simp [insertInto]
  | cons head rest ih =>
      rw [List.forall_mem_cons] at allInhabited
      simp only [insertInto]
      split
      · simp only [List.exists_mem_cons_iff, ih added inhabited allInhabited.2]
        exact or_left_comm
      · split
        · simp only [List.exists_mem_cons_iff]
        · rename_i notBefore notAfter
          simp only [Before] at notBefore notAfter
          have joined : (added.join head).first ≤ (added.join head).last := by
            simp only [join]
            omega
          simp only [ih (added.join head) joined allInhabited.2, List.exists_mem_cons_iff, ← or_assoc]
          have covers : (added.join head).first ≤ value ∧ value ≤ (added.join head).last ↔
              (added.first ≤ value ∧ value ≤ added.last) ∨ head.first ≤ value ∧ value ≤ head.last := by
            simp only [join]
            omega
          rw [covers]

end Interval

namespace IntervalSet

theorem ascends (set : IntervalSet) (value : Int) : Ascends set.intervals.toArray (Interval.side value) := by
  intro first second earlier later here there less
  rw [List.getElem?_toArray, List.getElem?_eq_some_iff] at here there
  obtain ⟨_, rfl⟩ := here
  obtain ⟨_, rfl⟩ := there
  have order := List.pairwise_iff_getElem.mp set.ordered first second ‹_› ‹_› less
  have left := set.inhabited _ (List.getElem_mem (l := set.intervals) ‹first < _›)
  have right := set.inhabited _ (List.getElem_mem (l := set.intervals) ‹second < _›)
  simp only [Interval.Before] at order
  rw [Interval.side_lt, Interval.side_lt, Interval.side_gt left, Interval.side_gt right]
  omega

theorem contains_iff {set : IntervalSet} {value : Int} :
    set.contains value = true ↔ ∃ interval ∈ set.intervals, interval.first ≤ value ∧ value ≤ interval.last := by
  rw [contains, bisect_isSome (set.ascends value) _ _ (by simp)]
  constructor
  · rintro ⟨index, interval, _, _, found, level⟩
    rw [List.getElem?_toArray] at found
    exact ⟨interval, List.mem_of_getElem? found, Interval.side_eq.mp level⟩
  · rintro ⟨interval, member, inside⟩
    obtain ⟨index, bound, rfl⟩ := List.getElem_of_mem member
    exact ⟨index, _, Nat.zero_le _, bound, by simp [bound], Interval.side_eq.mpr inside⟩

theorem contains_insertRange {set : IntervalSet} {first last value : Int} :
    (set.insertRange first last).contains value = true ↔
      (first ≤ value ∧ value ≤ last) ∨ set.contains value = true := by
  unfold insertRange
  split
  · rename_i bounds
    simp only [contains_iff]
    exact Interval.mem_insertInto ⟨first, last⟩ set.intervals bounds set.inhabited
  · refine ⟨Or.inr, fun either => either.resolve_left ?_⟩
    omega

theorem contains_insert {set : IntervalSet} {added value : Int} :
    (set.insert added).contains value = true ↔ value = added ∨ set.contains value = true := by
  rw [insert, contains_insertRange]
  exact or_congr ⟨fun bounds => by omega, fun same => by omega⟩ Iff.rfl

theorem insertAll_append (set : IntervalSet) (first second : List Interval) :
    set.insertAll (first ++ second) = (set.insertAll first).insertAll second := by
  simp [insertAll]

theorem contains_insertAll {value : Int} (added : List Interval) : ∀ {set : IntervalSet},
    (set.insertAll added).contains value = true ↔
      (∃ interval ∈ added, interval.first ≤ value ∧ value ≤ interval.last) ∨ set.contains value = true := by
  induction added with
  | nil => simp [insertAll]
  | cons interval added ih =>
      intro set
      have first : set.insertAll (interval :: added) =
          (set.insertRange interval.first interval.last).insertAll added := rfl
      rw [first, ih, contains_insertRange, List.exists_mem_cons_iff, or_left_comm, or_assoc]

theorem contains_union {set other : IntervalSet} {value : Int} :
    (set.union other).contains value = true ↔ set.contains value = true ∨ other.contains value = true := by
  rw [union, contains_insertAll, ← contains_iff, or_comm]

end IntervalSet

end GrammarNetwork
