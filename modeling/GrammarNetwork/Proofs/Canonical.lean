import Mathlib.Data.Int.Interval
import Mathlib.Data.Set.Card
import GrammarNetwork.Proofs.Membership

/-! Canonical sets: the intervals of a set are determined by its elements. However a set is gathered, its
intervals are in order with gaps between them, it has the elements of the ranges that went into it, and sets
with the same elements are equal. -/

namespace GrammarNetwork

namespace Interval

/-- Some interval of the list has the value. -/
def Covers (list : List Interval) (value : Int) : Prop :=
  ∃ interval ∈ list, interval.first ≤ value ∧ value ≤ interval.last

/-- The intervals ascend, each with at least one integer and with a gap to the next. -/
structure Canonical (list : List Interval) : Prop where
  inhabited : ∀ interval ∈ list, interval.first ≤ interval.last
  ordered : list.Pairwise Before

variable {head other : Interval} {rest more : List Interval} {value : Int}

@[simp] theorem not_covers_nil : ¬Covers [] value := by
  simp [Covers]

@[simp] theorem covers_cons :
    Covers (head :: rest) value ↔ (head.first ≤ value ∧ value ≤ head.last) ∨ Covers rest value := by
  simp [Covers]

theorem covers_flatMap {α : Type} {list : List α} {make : α → List Interval} :
    Covers (list.flatMap make) value ↔ ∃ entry ∈ list, Covers (make entry) value := by
  simp only [Covers, List.mem_flatMap]
  grind

theorem Canonical.of_cons (canonical : Canonical (head :: rest)) :
    head.first ≤ head.last ∧ (∀ interval ∈ rest, head.Before interval) ∧ Canonical rest := by
  obtain ⟨inhabited, ordered⟩ := canonical
  rw [List.forall_mem_cons] at inhabited
  rw [List.pairwise_cons] at ordered
  exact ⟨inhabited.1, ordered.1, inhabited.2, ordered.2⟩

/-- The intervals behind the first one begin after a gap. -/
theorem Canonical.gap (canonical : Canonical (head :: rest)) (covered : Covers rest value) :
    head.last + 1 < value := by
  obtain ⟨_, apart, _⟩ := canonical.of_cons
  obtain ⟨interval, member, lower, _⟩ := covered
  have order : head.last + 1 < interval.first := apart interval member
  omega

theorem Canonical.first_le (canonical : Canonical (head :: rest)) (covered : Covers (head :: rest) value) :
    head.first ≤ value := by
  obtain ⟨inhabited, _, _⟩ := canonical.of_cons
  rcases covers_cons.mp covered with here | later
  · exact here.1
  · have beyond := canonical.gap later
    omega

/-- Between the first interval and the next one a number is missing. -/
theorem Canonical.not_covers_succ (canonical : Canonical (head :: rest)) :
    ¬Covers (head :: rest) (head.last + 1) := by
  intro covered
  rcases covers_cons.mp covered with here | later
  · omega
  · have beyond := canonical.gap later
    omega

theorem Canonical.covers_tail_iff (canonical : Canonical (head :: rest)) :
    Covers rest value ↔ Covers (head :: rest) value ∧ head.last < value := by
  constructor
  · intro later
    have beyond := canonical.gap later
    exact ⟨covers_cons.mpr (Or.inr later), by omega⟩
  · rintro ⟨covered, beyond⟩
    rcases covers_cons.mp covered with here | later
    · omega
    · exact later

/-- The end of the first interval is the last number before one that is missing. -/
theorem Canonical.last_le (left : Canonical (head :: rest)) (first : head.first = other.first)
    (same : ∀ value, Covers (head :: rest) value ↔ Covers (other :: more) value) : other.last ≤ head.last := by
  by_contra beyond
  have inhabited := left.of_cons.1
  refine left.not_covers_succ ((same _).mpr (covers_cons.mpr (Or.inl ?_)))
  omega

theorem Canonical.head_eq (left : Canonical (head :: rest)) (right : Canonical (other :: more))
    (same : ∀ value, Covers (head :: rest) value ↔ Covers (other :: more) value) : head = other := by
  have firstOf : ∀ {interval : Interval} {list : List Interval}, Canonical (interval :: list) →
      Covers (interval :: list) interval.first := fun canonical =>
    covers_cons.mpr (Or.inl ⟨Int.le_refl _, canonical.of_cons.1⟩)
  have first : head.first = other.first := by
    have lower := left.first_le ((same _).mpr (firstOf right))
    have upper := right.first_le ((same _).mp (firstOf left))
    omega
  have last : head.last = other.last := by
    have lower := left.last_le first same
    have upper := right.last_le first.symm fun value => (same value).symm
    omega
  cases head
  cases other
  simp_all

theorem Canonical.ext : ∀ {left right : List Interval}, Canonical left → Canonical right →
    (∀ value, Covers left value ↔ Covers right value) → left = right
  | [], [], _, _, _ => rfl
  | [], head :: _, _, right, same => by
      have covered := (same head.first).mpr (covers_cons.mpr (Or.inl ⟨Int.le_refl _, right.of_cons.1⟩))
      exact absurd covered not_covers_nil
  | head :: _, [], left, _, same => by
      have covered := (same head.first).mp (covers_cons.mpr (Or.inl ⟨Int.le_refl _, left.of_cons.1⟩))
      exact absurd covered not_covers_nil
  | head :: rest, other :: more, left, right, same => by
      obtain rfl := left.head_eq right same
      have later : ∀ value, Covers rest value ↔ Covers more value := fun value => by
        rw [left.covers_tail_iff, right.covers_tail_iff, same value]
      rw [Canonical.ext left.of_cons.2.2 right.of_cons.2.2 later]

/-- The sizes of the intervals add up to the number of integers that they cover. -/
theorem Canonical.ncard : ∀ {list : List Interval}, Canonical list →
    {value | Covers list value}.Finite ∧
      {value | Covers list value}.ncard = list.foldr (fun interval total => interval.size + total) 0
  | [], _ => by simp
  | head :: rest, canonical => by
      obtain ⟨finite, count⟩ := Canonical.ncard canonical.of_cons.2.2
      have split : {value | Covers (head :: rest) value} =
          Set.Icc head.first head.last ∪ {value | Covers rest value} := by
        ext value
        simp
      have apart : Disjoint (Set.Icc head.first head.last) {value | Covers rest value} := by
        rw [Set.disjoint_left]
        intro value here later
        have beyond := canonical.gap later
        have upper := here.2
        omega
      have here : (Set.Icc head.first head.last).ncard = head.size := by
        rw [← Finset.coe_Icc, Set.ncard_coe_finset, Int.card_Icc, size]
        congr 1
        omega
      rw [split]
      refine ⟨(Set.finite_Icc _ _).union finite, ?_⟩
      rw [Set.ncard_union_eq apart (Set.finite_Icc _ _) finite, here, count, List.foldr_cons]

/-- The gaps have what a range has beyond the intervals. -/
theorem Canonical.covers_gaps {first last : Int} {list : List Interval} (canonical : Canonical list) :
    Covers (gaps first last list) value ↔ first ≤ value ∧ value ≤ last ∧ ¬Covers list value := by
  fun_induction gaps first last list with
  | case1 first bounds => simp
  | case2 first bounds =>
      simp only [not_covers_nil, not_false_eq_true, and_true, false_iff]
      omega
  | case3 first head rest apart ih =>
      have inhabited := canonical.of_cons.1
      rw [ih canonical.of_cons.2.2, covers_cons]
      grind
  | case4 first head rest meets before ih =>
      have inhabited := canonical.of_cons.1
      have beyond : Covers rest value → head.last + 1 < value := canonical.gap
      rw [covers_cons, ih canonical.of_cons.2.2, covers_cons]
      grind
  | case5 first head rest meets before ih =>
      have inhabited := canonical.of_cons.1
      have beyond : Covers rest value → head.last + 1 < value := canonical.gap
      rw [ih canonical.of_cons.2.2, covers_cons]
      grind

/-- The ends of the intervals after an insertion are ends that were there before. -/
theorem ends_insertInto {lower upper : Int → Prop} (added : Interval) : ∀ (list : List Interval),
    lower added.first ∧ upper added.last → (∀ interval ∈ list, lower interval.first ∧ upper interval.last) →
    ∀ interval ∈ insertInto added list, lower interval.first ∧ upper interval.last
  | [], new, _ => by simpa [insertInto] using new
  | head :: rest, new, old => by
      rw [List.forall_mem_cons] at old
      simp only [insertInto]
      split
      · exact List.forall_mem_cons.mpr ⟨old.1, ends_insertInto added rest new old.2⟩
      · split
        · exact List.forall_mem_cons.mpr ⟨new, List.forall_mem_cons.mpr old⟩
        · refine ends_insertInto (added.join head) rest ⟨?_, ?_⟩ old.2
          · rcases min_choice added.first head.first with least | least <;> simp only [join, least]
            · exact new.1
            · exact old.1.1
          · rcases max_choice added.last head.last with greatest | greatest <;> simp only [join, greatest]
            · exact new.2
            · exact old.1.2

end Interval

namespace IntervalSet

theorem canonical (set : IntervalSet) : Interval.Canonical set.intervals :=
  ⟨set.inhabited, set.ordered⟩

theorem covers_iff {set : IntervalSet} {value : Int} :
    Interval.Covers set.intervals value ↔ set.contains value = true :=
  contains_iff.symm

theorem contains_ofIntervals {added : List Interval} {value : Int} :
    (ofIntervals added).contains value = true ↔ Interval.Covers added value := by
  rw [ofIntervals, contains_insertAll, contains_iff]
  simp [Interval.Covers, empty]

theorem contains_ofRange {first last value : Int} :
    (ofRange first last).contains value = true ↔ first ≤ value ∧ value ≤ last := by
  rw [ofRange, contains_insertRange, contains_iff]
  simp [empty]

theorem isEmpty_iff {set : IntervalSet} : set.isEmpty = true ↔ ¬∃ value, set.contains value = true := by
  rw [isEmpty, List.isEmpty_iff]
  constructor
  · rintro none ⟨value, member⟩
    rw [contains_iff, none] at member
    simp at member
  · intro absent
    refine List.eq_nil_iff_forall_not_mem.mpr fun interval listed => absent ⟨interval.first, ?_⟩
    exact contains_iff.mpr ⟨interval, listed, Int.le_refl _, set.inhabited interval listed⟩

theorem contains_complement {set vocabulary : IntervalSet} {value : Int} :
    (set.complement vocabulary).contains value = true ↔
      vocabulary.contains value = true ∧ set.contains value = false := by
  rw [complement, contains_ofIntervals, Interval.covers_flatMap, ← Bool.not_eq_true, ← covers_iff, ← covers_iff]
  simp only [set.canonical.covers_gaps]
  constructor
  · rintro ⟨whole, listed, lower, upper, absent⟩
    exact ⟨⟨whole, listed, lower, upper⟩, absent⟩
  · rintro ⟨⟨whole, listed, lower, upper⟩, absent⟩
    exact ⟨whole, listed, lower, upper, absent⟩

theorem eq_of_contains {left right : IntervalSet}
    (same : ∀ value, left.contains value = true ↔ right.contains value = true) : left = right := by
  have intervals : left.intervals = right.intervals :=
    left.canonical.ext right.canonical fun value => by rw [covers_iff, covers_iff, same value]
  cases left
  cases right
  simp_all

theorem meetsRange_iff {set : IntervalSet} {first last : Int} :
    set.meetsRange first last = true ↔ ∃ value, first ≤ value ∧ value ≤ last ∧ set.contains value = true := by
  simp only [meetsRange, Bool.and_eq_true, decide_eq_true_eq, List.any_eq_true, contains_iff]
  constructor
  · rintro ⟨bounds, interval, member, left, right⟩
    have inhabited := set.inhabited interval member
    exact ⟨max first interval.first, by omega, by omega, interval, member, by omega, by omega⟩
  · rintro ⟨value, lower, upper, interval, member, left, right⟩
    exact ⟨by omega, interval, member, by omega, by omega⟩

theorem ncard_contains (set : IntervalSet) :
    {value | set.contains value = true}.Finite ∧ {value | set.contains value = true}.ncard = set.size := by
  simpa only [covers_iff, size] using set.canonical.ncard

theorem ends_insertRange {lower upper : Int → Prop} {set : IntervalSet} {first last : Int}
    (new : lower first ∧ upper last) (old : ∀ interval ∈ set.intervals, lower interval.first ∧ upper interval.last) :
    ∀ interval ∈ (set.insertRange first last).intervals, lower interval.first ∧ upper interval.last := by
  unfold insertRange
  split
  · exact Interval.ends_insertInto ⟨first, last⟩ set.intervals new old
  · exact old

theorem ends_insertAll {lower upper : Int → Prop} : ∀ (added : List Interval) {set : IntervalSet},
    (∀ interval ∈ added, lower interval.first ∧ upper interval.last) →
    (∀ interval ∈ set.intervals, lower interval.first ∧ upper interval.last) →
    ∀ interval ∈ (set.insertAll added).intervals, lower interval.first ∧ upper interval.last
  | [], _, _, old => old
  | first :: rest, set, new, old => by
      rw [List.forall_mem_cons] at new
      have here := ends_insertRange new.1 old
      exact ends_insertAll rest new.2 here

/-- A set put together out of ranges. -/
inductive Gathering where
  | empty
  | range (first last : Int)
  | insert (set : Gathering) (value : Int)
  | insertRange (set : Gathering) (first last : Int)
  | union (set other : Gathering)

namespace Gathering

/-- The set that the additions come to. -/
def set : Gathering → IntervalSet
  | .empty => .empty
  | .range first last => .ofRange first last
  | .insert gathering value => gathering.set.insert value
  | .insertRange gathering first last => gathering.set.insertRange first last
  | .union gathering other => gathering.set.union other.set

/-- The ranges that were added, empty ones as well. -/
def ranges : Gathering → List Interval
  | .empty => []
  | .range first last => [⟨first, last⟩]
  | .insert gathering value => gathering.ranges ++ [⟨value, value⟩]
  | .insertRange gathering first last => gathering.ranges ++ [⟨first, last⟩]
  | .union gathering other => gathering.ranges ++ other.ranges

theorem contains_set (gathering : Gathering) (value : Int) :
    gathering.set.contains value = true ↔
      ∃ range ∈ gathering.ranges, range.first ≤ value ∧ value ≤ range.last := by
  have nothing : (IntervalSet.empty).contains value = false := by
    rw [Bool.eq_false_iff, ne_eq, contains_iff]
    simp [IntervalSet.empty]
  induction gathering with
  | empty => simp [set, ranges, nothing]
  | range first last => simp [set, ranges, ofRange, contains_insertRange, nothing]
  | insert gathering added ih =>
      simp only [set, ranges, IntervalSet.insert, contains_insertRange, ih, List.mem_append, List.mem_singleton,
        or_and_right, exists_or, exists_eq_left, or_comm]
  | insertRange gathering first last ih =>
      simp only [set, ranges, contains_insertRange, ih, List.mem_append, List.mem_singleton, or_and_right,
        exists_or, exists_eq_left, or_comm]
  | union gathering other ih otherIh =>
      simp only [set, ranges, contains_union, ih, otherIh, List.mem_append, or_and_right, exists_or]

/-- No number is stored that was not given. -/
theorem ends_set (lower upper : Int → Prop) (gathering : Gathering)
    (given : ∀ range ∈ gathering.ranges, lower range.first ∧ upper range.last) :
    ∀ interval ∈ gathering.set.intervals, lower interval.first ∧ upper interval.last := by
  have nothing : ∀ interval ∈ IntervalSet.empty.intervals, lower interval.first ∧ upper interval.last := by
    simp [IntervalSet.empty]
  induction gathering with
  | empty => exact nothing
  | range first last => exact ends_insertRange (given ⟨first, last⟩ (by simp [ranges])) nothing
  | insert gathering value ih =>
      rw [ranges, List.forall_mem_append] at given
      exact ends_insertRange (given.2 ⟨value, value⟩ (by simp)) (ih given.1)
  | insertRange gathering first last ih =>
      rw [ranges, List.forall_mem_append] at given
      exact ends_insertRange (given.2 ⟨first, last⟩ (by simp)) (ih given.1)
  | union gathering other ih otherIh =>
      rw [ranges, List.forall_mem_append] at given
      exact ends_insertAll _ (otherIh given.2) (ih given.1)

/-- However a set is gathered, its intervals are canonical and end only at numbers that were given; it contains
what was added, the questions about its elements are answered by them, and it is equal to every set with the same
elements, so the order of the additions does not matter. -/
theorem set_canonical (gathering : Gathering) :
    Interval.Canonical gathering.set.intervals ∧
    (∀ interval ∈ gathering.set.intervals,
      (∃ range ∈ gathering.ranges, interval.first = range.first) ∧
        ∃ range ∈ gathering.ranges, interval.last = range.last) ∧
    (∀ value, gathering.set.contains value = true ↔
      ∃ range ∈ gathering.ranges, range.first ≤ value ∧ value ≤ range.last) ∧
    (∀ first last, gathering.set.meetsRange first last = true ↔
      ∃ value, first ≤ value ∧ value ≤ last ∧ gathering.set.contains value = true) ∧
    {value | gathering.set.contains value = true}.Finite ∧
    gathering.set.size = {value | gathering.set.contains value = true}.ncard ∧
    ∀ other : Gathering,
      (gathering.set = other.set ↔
        ∀ value, gathering.set.contains value = true ↔ other.set.contains value = true) ∧
      (gathering.ranges.Perm other.ranges → gathering.set = other.set) := by
  obtain ⟨finite, count⟩ := gathering.set.ncard_contains
  refine ⟨gathering.set.canonical, ?_, gathering.contains_set, fun _ _ => meetsRange_iff, finite, count.symm,
    fun other => ⟨⟨fun same value => by rw [same], eq_of_contains⟩, fun reordered => ?_⟩⟩
  · refine ends_set (fun bound => ∃ range ∈ gathering.ranges, bound = range.first)
      (fun bound => ∃ range ∈ gathering.ranges, bound = range.last) gathering fun range member => ?_
    exact ⟨⟨range, member, rfl⟩, range, member, rfl⟩
  · apply eq_of_contains
    intro value
    simp only [contains_set, reordered.mem_iff]

end Gathering

end IntervalSet

end GrammarNetwork
