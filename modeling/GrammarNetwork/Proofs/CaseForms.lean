import Mathlib.Data.List.Chain
import Mathlib.Data.List.TakeWhile
import GrammarNetwork.Proofs.Canonical
import GrammarNetwork.Unicode.CaseRange

/-! Case forms of characters. A letter is its own lower case, its own upper case, or the title case letter between the
two; so the two case forms of a range leave out at most a title case letter at its end, and they have no characters
other than letters to warn of. -/

namespace GrammarNetwork.Unicode

/-- The code point is one of the run. -/
def Run.Has (run : Run) (code : Int) : Prop :=
  run.first ≤ code ∧ code ≤ run.last ∧ (run.step : Int) ∣ code - run.first

theorem Run.contains_iff {run : Run} {code : Nat} : run.contains code = true ↔ run.Has code := by
  simp only [contains, Has, Bool.and_eq_true, decide_eq_true_eq, beq_iff_eq, Nat.cast_le, and_assoc]
  refine and_congr_right fun above => and_congr_right fun _ => ?_
  rw [← Nat.cast_sub above, Int.natCast_dvd_natCast, Nat.dvd_iff_mod_eq_zero]

/-- The run of one shift ends before that of the other, and both have code points. -/
def Shift.Before (left right : Shift) : Prop :=
  left.run.first ≤ left.run.last ∧ left.run.last < right.run.first ∧ right.run.first ≤ right.run.last

instance (left right : Shift) : Decidable (left.Before right) :=
  inferInstanceAs (Decidable (_ ∧ _ ∧ _))

instance : IsTrans Shift Shift.Before where
  trans left middle right first second := by
    simp only [Shift.Before] at first second ⊢
    omega

/-- The runs of the table follow one another. -/
def Sorted (table : Array Shift) : Prop :=
  table.toList.Pairwise Shift.Before

theorem isChain_shifts :
    lowerShifts.toList.IsChain Shift.Before ∧ upperShifts.toList.IsChain Shift.Before := by
  decide +kernel

theorem sorted_lowerShifts : Sorted lowerShifts :=
  List.isChain_iff_pairwise.mp isChain_shifts.1

theorem sorted_upperShifts : Sorted upperShifts :=
  List.isChain_iff_pairwise.mp isChain_shifts.2

section Shifting

variable {table : Array Shift} {shift : Shift} {code : Int}

theorem Run.side_eq {run : Run} {code : Nat} : run.side code = .eq ↔ run.first ≤ code ∧ code ≤ run.last := by
  unfold side
  split
  · simp only [reduceCtorEq, false_iff]
    omega
  · split
    · simp only [reduceCtorEq, false_iff]
      omega
    · simp only [true_iff]
      omega

theorem Sorted.ascends (sorted : Sorted table) (code : Nat) : Ascends table fun shift => shift.run.side code := by
  intro first second earlier later here there less
  rw [← Array.getElem?_toList, List.getElem?_eq_some_iff] at here there
  obtain ⟨_, rfl⟩ := here
  obtain ⟨_, rfl⟩ := there
  have order := List.pairwise_iff_getElem.mp sorted first second ‹_› ‹_› less
  simp only [Shift.Before] at order
  constructor
  · intro before
    unfold Run.side at before ⊢
    grind
  · intro behind
    unfold Run.side at behind ⊢
    grind

/-- Different runs of a sorted table have no code point between their ends in common. -/
theorem Sorted.eq_of_side (sorted : Sorted table) {other : Shift} (listed : shift ∈ table) (also : other ∈ table)
    {code : Nat} (level : shift.run.side code = .eq) (same : other.run.side code = .eq) : shift = other := by
  rw [Run.side_eq] at level same
  rw [Array.mem_def] at listed also
  obtain ⟨first, _, rfl⟩ := List.getElem_of_mem listed
  obtain ⟨second, _, rfl⟩ := List.getElem_of_mem also
  have order := List.pairwise_iff_getElem.mp sorted
  simp only [Shift.Before] at order
  rcases Nat.lt_trichotomy first second with less | rfl | less
  · have apart := order first second ‹_› ‹_› less
    omega
  · rfl
  · have apart := order second first ‹_› ‹_› less
    omega

theorem shiftBy_of_has (sorted : Sorted table) (listed : shift ∈ table) {code : Nat} (has : shift.run.Has code) :
    shiftBy table code = code + shift.distance := by
  have level : shift.run.side code = .eq := Run.side_eq.mpr ⟨by exact_mod_cast has.1, by exact_mod_cast has.2.1⟩
  have isSome : (bisect table (fun shift => shift.run.side code) 0 table.size).isSome = true := by
    rw [bisect_isSome (sorted.ascends code) _ _ (Nat.le_refl _)]
    obtain ⟨index, bound, found⟩ := Array.getElem_of_mem listed
    exact ⟨index, shift, Nat.zero_le _, bound, by simp [bound, found], level⟩
  obtain ⟨entry, found⟩ := Option.isSome_iff_exists.mp isSome
  obtain ⟨member, same⟩ := bisect_eq_some _ _ found
  obtain rfl := sorted.eq_of_side listed member level same
  simp [shiftBy, found, Run.contains_iff.mpr has]

/-- The code point that the table sends an integer to; those that are no code points stay. -/
def formBy (table : Array Shift) (code : Int) : Int :=
  if code < 0 then code else shiftBy table code.toNat

theorem toLower_eq_formBy : toLower = formBy lowerShifts := rfl

theorem toUpper_eq_formBy : toUpper = formBy upperShifts := rfl

theorem formBy_of_has (sorted : Sorted table) (listed : shift ∈ table) (has : shift.run.Has code) :
    formBy table code = code + shift.distance := by
  have above : 0 ≤ code := Int.le_trans (Int.natCast_nonneg _) has.1
  lift code to Nat using above
  rw [formBy, if_neg (by omega), Int.toNat_natCast, shiftBy_of_has sorted listed has]

/-- A code point that does not stay is in a run of the table. -/
theorem formBy_cases (table : Array Shift) (code : Int) :
    formBy table code = code ∨ ∃ shift ∈ table, shift.run.Has code ∧ formBy table code = code + shift.distance := by
  by_cases negative : code < 0
  · exact Or.inl (if_pos negative)
  · lift code to Nat using Int.not_lt.mp negative
    rw [formBy, if_neg negative, Int.toNat_natCast]
    unfold shiftBy
    split
    · rename_i shift found
      split
      · rename_i inside
        exact Or.inr ⟨shift, (bisect_eq_some _ _ found).1, Run.contains_iff.mp inside, rfl⟩
      · exact Or.inl rfl
    · exact Or.inl rfl

end Shifting

section Overlaps

/-- Whether all shifts with runs that overlap satisfy `fit`. Both lists are sorted, so what lies before one run lies
before the next ones as well. -/
def overlapsFit (fit : Shift → Shift → Bool) : List Shift → List Shift → Bool
  | [], _ => true
  | shift :: rest, others =>
      let ahead := others.dropWhile fun other => other.run.last < shift.run.first
      (ahead.takeWhile fun other => other.run.first ≤ shift.run.last).all (fit shift) && overlapsFit fit rest ahead

theorem mem_takeWhile_first {bound : Nat} {other : Shift} : ∀ {others : List Shift}, others.Pairwise Shift.Before →
    other ∈ others → other.run.first ≤ bound → other ∈ others.takeWhile fun other => other.run.first ≤ bound
  | [], _, member, _ => member
  | head :: rest, ordered, member, below => by
      obtain ⟨fromHead, restOrdered⟩ := List.pairwise_cons.mp ordered
      rcases List.mem_cons.mp member with rfl | later
      · simp [below]
      · have order := fromHead other later
        simp only [Shift.Before] at order
        have headBelow : head.run.first ≤ bound := by omega
        rw [List.takeWhile_cons, if_pos (by simpa using headBelow)]
        exact List.mem_cons_of_mem _ (mem_takeWhile_first restOrdered later below)

theorem mem_dropWhile_of_not (test : Shift → Bool) {other : Shift} {others : List Shift} (member : other ∈ others)
    (fails : test other = false) : other ∈ others.dropWhile test := by
  rw [← List.takeWhile_append_dropWhile (p := test) (l := others), List.mem_append] at member
  refine member.resolve_left fun taken => ?_
  rw [List.mem_takeWhile_imp taken] at fails
  cases fails

theorem fit_of_overlap {fit : Shift → Shift → Bool} {shift other : Shift} : ∀ {shifts others : List Shift},
    shifts.Pairwise Shift.Before → others.Pairwise Shift.Before → overlapsFit fit shifts others = true →
    shift ∈ shifts → other ∈ others → shift.run.first ≤ other.run.last → other.run.first ≤ shift.run.last →
    fit shift other = true
  | [], _, _, _, _, member, _, _, _ => by cases member
  | head :: rest, others, ordered, sorted, checked, member, listed, left, right => by
      obtain ⟨fromHead, restOrdered⟩ := List.pairwise_cons.mp ordered
      simp only [overlapsFit, Bool.and_eq_true] at checked
      have reaches : head.run.first ≤ other.run.last := by
        rcases List.mem_cons.mp member with rfl | later
        · exact left
        · have order := fromHead shift later
          simp only [Shift.Before] at order
          omega
      have ahead := mem_dropWhile_of_not (fun other => other.run.last < head.run.first) listed
        (by simpa using reaches)
      have aheadSorted := sorted.sublist (List.dropWhile_sublist fun other => other.run.last < head.run.first)
      rcases List.mem_cons.mp member with rfl | later
      · exact List.all_eq_true.mp checked.1 other (mem_takeWhile_first aheadSorted ahead right)
      · exact fit_of_overlap restOrdered aheadSorted checked.2 later ahead left right

/-- All code points of the run are even, or all are odd. -/
def Run.isUniform (run : Run) : Bool :=
  run.first == run.last || run.step % 2 == 0

theorem Run.Has.parity {run : Run} {code : Int} (has : run.Has code) (uniform : run.isUniform = true) :
    code % 2 = run.first % 2 := by
  simp only [isUniform, Bool.or_eq_true, beq_iff_eq] at uniform
  obtain ⟨above, below, multiple⟩ := has
  rcases uniform with single | even
  · omega
  · have two : (2 : Int) ∣ run.step := by omega
    have difference := two.trans multiple
    omega

/-- The code points that two runs have in common. -/
def Run.common (left right : Run) : List Nat :=
  (List.range' (max left.first right.first) (min left.last right.last + 1 - max left.first right.first)).filter
    fun code => left.contains code && right.contains code

theorem Run.mem_common {left right : Run} {code : Nat} (has : left.Has code) (also : right.Has code) :
    code ∈ left.common right := by
  rw [common, List.mem_filter, List.mem_range'_1, contains_iff.mpr has, contains_iff.mpr also]
  obtain ⟨first, last, _⟩ := has
  obtain ⟨above, below, _⟩ := also
  exact ⟨by omega, rfl⟩

/-- The letters of title case that have both an upper and a lower case. -/
def titles : List Nat := [0x1C5, 0x1C8, 0x1CB, 0x1F2]

/-- The runs have different parities, or nothing but letters of title case in common. -/
def Shift.isApart (lower upper : Shift) : Bool :=
  (lower.run.isUniform && upper.run.isUniform && lower.run.first % 2 != upper.run.first % 2) ||
    (lower.run.common upper.run).all titles.contains

theorem overlapsFit_shifts : overlapsFit Shift.isApart lowerShifts.toList upperShifts.toList = true := by
  decide +kernel

end Overlaps

/-- The code point is neither its own lower case nor its own upper case. -/
def IsTitleCase (code : Int) : Prop :=
  toLower code ≠ code ∧ toUpper code ≠ code

/-- A letter of title case stands between its two case forms. -/
theorem forms_of_mem_titles : ∀ letter ∈ titles, toLower letter = letter + 1 ∧ toUpper letter = letter - 1 := by
  decide +kernel

theorem IsTitleCase.mem_titles {code : Int} (title : IsTitleCase code) : ∃ letter ∈ titles, code = letter := by
  obtain ⟨notLower, notUpper⟩ := title
  rw [toLower_eq_formBy] at notLower
  rw [toUpper_eq_formBy] at notUpper
  obtain ⟨lower, listed, has, _⟩ := (formBy_cases lowerShifts code).resolve_left notLower
  obtain ⟨upper, also, too, _⟩ := (formBy_cases upperShifts code).resolve_left notUpper
  have fits : lower.isApart upper = true := by
    refine fit_of_overlap sorted_lowerShifts sorted_upperShifts overlapsFit_shifts (Array.mem_def.mp listed)
      (Array.mem_def.mp also) ?_ ?_
    · have first := has.1
      have last := too.2.1
      omega
    · have first := too.1
      have last := has.2.1
      omega
  lift code to Nat using Int.le_trans (Int.natCast_nonneg _) has.1
  simp only [Shift.isApart, Bool.or_eq_true, Bool.and_eq_true, bne_iff_ne, List.all_eq_true,
    List.contains_iff_mem] at fits
  rcases fits with ⟨⟨uniform, alike⟩, different⟩ | titled
  · have one := has.parity uniform
    have two := too.parity alike
    omega
  · exact ⟨code, titled code (Run.mem_common has too), rfl⟩

theorem isTitleCase_iff {code : Int} : IsTitleCase code ↔ ∃ letter ∈ titles, code = letter := by
  refine ⟨IsTitleCase.mem_titles, ?_⟩
  rintro ⟨letter, listed, rfl⟩
  obtain ⟨lower, upper⟩ := forms_of_mem_titles letter listed
  exact ⟨by omega, by omega⟩

/-- A code point is its own lower case or its own upper case, or it stands between the two. -/
theorem toLower_or_toUpper (code : Int) :
    toLower code = code ∨ toUpper code = code ∨ toLower code = code + 1 ∧ toUpper code = code - 1 := by
  by_cases title : IsTitleCase code
  · obtain ⟨letter, listed, rfl⟩ := title.mem_titles
    exact Or.inr (Or.inr (forms_of_mem_titles letter listed))
  · by_contra other
    exact title ⟨fun own => other (Or.inl own), fun own => other (Or.inr (Or.inl own))⟩

/-- The capital letters of ASCII, which are the only ones there that have another lower case. -/
def capitals : Shift := ⟨⟨0x41, 0x5A, 1⟩, 32⟩

theorem has_capitals {code : Int} : capitals.run.Has code ↔ 0x41 ≤ code ∧ code ≤ 0x5A := by
  simp [Run.Has, capitals]

/-- What the tables have in ASCII, with all of them looked through once. -/
theorem ascii_shifts : capitals ∈ lowerShifts.toList ∧
    (∀ shift ∈ lowerShifts.toList,
      (shift.run.first ≤ 0x7F → shift = capitals) ∧ 0x5A < shift.run.first + shift.distance) ∧
    ∀ shift ∈ upperShifts.toList, 0x7F < shift.run.first + shift.distance ∨
      0x41 ≤ shift.run.first + shift.distance ∧ shift.run.last + shift.distance ≤ 0x5A := by
  decide +kernel

theorem capitals_mem : capitals ∈ lowerShifts :=
  Array.mem_def.mpr ascii_shifts.1

/-- In ASCII nothing but a capital letter is moved to lower case. -/
theorem eq_capitals {shift : Shift} (listed : shift ∈ lowerShifts) (low : shift.run.first ≤ 0x7F) :
    shift = capitals :=
  (ascii_shifts.2.1 shift (Array.mem_def.mp listed)).1 low

theorem lower_not_capital {shift : Shift} (listed : shift ∈ lowerShifts) :
    0x5A < shift.run.first + shift.distance :=
  (ascii_shifts.2.1 shift (Array.mem_def.mp listed)).2

theorem upper_capital {shift : Shift} (listed : shift ∈ upperShifts) :
    0x7F < shift.run.first + shift.distance ∨
      0x41 ≤ shift.run.first + shift.distance ∧ shift.run.last + shift.distance ≤ 0x5A :=
  ascii_shifts.2.2 shift (Array.mem_def.mp listed)

theorem toLower_capital (code : Int) (above : 0x41 ≤ code) (below : code ≤ 0x5A) : toLower code = code + 32 :=
  formBy_of_has sorted_lowerShifts capitals_mem (has_capitals.mpr ⟨above, below⟩)

theorem toLower_toLower_of_ascii {code : Int} (ascii : toLower code ≤ 0x7F) :
    toLower (toLower code) = toLower code := by
  rcases formBy_cases lowerShifts (toLower code) with stays | ⟨shift, listed, has, _⟩
  · exact stays
  have low := has.1
  obtain rfl := eq_capitals listed (by omega)
  obtain ⟨above, below⟩ := has_capitals.mp has
  rcases formBy_cases lowerShifts code with stays | ⟨other, also, inside, moves⟩
  · rw [← toLower_eq_formBy] at stays
    have moved := toLower_capital code (by omega) (by omega)
    omega
  · rw [← toLower_eq_formBy] at moves
    have beyond := lower_not_capital also
    have first := inside.1
    omega

theorem toLower_toUpper_of_ascii {code : Int} (cased : toLower code ≠ toUpper code) (ascii : toUpper code ≤ 0x7F) :
    toLower (toUpper code) ≠ toUpper code := by
  rcases formBy_cases upperShifts code with stays | ⟨shift, listed, has, moves⟩
  · rw [← toUpper_eq_formBy] at stays
    rwa [stays] at cased ⊢
  · rw [← toUpper_eq_formBy] at moves
    obtain ⟨first, last, _⟩ := has
    have capital := upper_capital listed
    have lowered := toLower_capital (toUpper code) (by omega) (by omega)
    omega

namespace CaseRange

/-- The ranges that a range of characters is matched as. -/
def forms (ignoring : Bool) (first last : Int) : List Interval :=
  let range := classify first last
  if ignoring && !range.isSingle then
    [⟨range.lowerFirst, range.lowerLast⟩, ⟨range.upperFirst, range.upperLast⟩]
  else
    [⟨first, last⟩]

theorem forms_false (first last : Int) : forms false first last = [⟨first, last⟩] := rfl

theorem forms_of_single {first last : Int} (single : (classify first last).isSingle = true) (ignoring : Bool) :
    forms ignoring first last = [⟨first, last⟩] := by
  simp [forms, single]

theorem forms_of_split {first last : Int} (split : (classify first last).isSingle = false) :
    forms true first last = [⟨toLower first, toLower last⟩, ⟨toUpper first, toUpper last⟩] := by
  simp only [forms, split, Bool.not_false, Bool.and_self, if_true]
  rfl

theorem mixedCase_eq_false {first last : Int} :
    (classify first last).mixedCase = false ↔ (toLower first = first ↔ toLower last = last) := by
  simp only [classify, bne_eq_false_iff_eq]
  rw [Bool.eq_iff_iff, beq_iff_eq, beq_iff_eq]

/-- A range is split when its ends are of one case and their two case forms are equally far apart. -/
theorem isSingle_eq_false {first last : Int} : (classify first last).isSingle = false ↔
    (toLower first = first ↔ toLower last = last) ∧
    toLower first - toUpper first = toLower last - toUpper last ∧ toLower first ≠ toUpper first := by
  rw [isSingle, Bool.or_eq_false_iff, Bool.or_eq_false_iff, mixedCase_eq_false, Bool.and_eq_false_iff,
    bne_eq_false_iff_eq, beq_eq_false_iff_ne, beq_eq_false_iff_ne]
  simp only [classify]
  constructor
  · rintro ⟨⟨cased, same⟩, parallel⟩
    exact ⟨same, by omega, by omega⟩
  · rintro ⟨same, parallel, cased⟩
    exact ⟨⟨Or.inl cased, same⟩, by omega⟩

/-- The character is the title case at the end of a range that has at most the upper case of the same letter besides. -/
def Loses (first last value : Int) : Prop :=
  value = last ∧ IsTitleCase value ∧ toLower first = toLower last ∧ toUpper first = toUpper last

theorem Loses.split {first last value : Int} (ascends : first ≤ last) (loses : Loses first last value) :
    (classify first last).isSingle = false := by
  obtain ⟨rfl, ⟨notLower, notUpper⟩, sameLower, sameUpper⟩ := loses
  rcases toLower_or_toUpper value with lower | upper | between
  · exact absurd lower notLower
  · exact absurd upper notUpper
  · refine isSingle_eq_false.mpr ⟨iff_of_false ?_ notLower, ?_, ?_⟩ <;> omega

/-- A range is matched in both cases without losing a character, unless it is one of title case at its end. -/
theorem covers_forms {first last value : Int} (lower : first ≤ value) (upper : value ≤ last) :
    Interval.Covers (forms true first last) value ↔ ¬Loses first last value := by
  cases single : (classify first last).isSingle with
  | true =>
      rw [forms_of_single single, Interval.covers_cons]
      refine iff_of_true (Or.inl ⟨lower, upper⟩) fun loses => ?_
      rw [loses.split (Int.le_trans lower upper)] at single
      cases single
  | false =>
      obtain ⟨sameCase, parallel, cased⟩ := isSingle_eq_false.mp single
      simp only [forms_of_split single, Interval.covers_cons, Interval.not_covers_nil, or_false, Loses]
      have atFirst := toLower_or_toUpper first
      have atLast := toLower_or_toUpper last
      constructor
      · rintro covered ⟨rfl, ⟨notLower, notUpper⟩, sameLower, sameUpper⟩
        omega
      · intro kept
        by_contra missing
        by_cases own : toLower first = first
        · -- Both ends are lower case, so the lower form is the range itself.
          have lastOwn := sameCase.mp own
          omega
        · have lastOther : toLower last ≠ last := fun same => own (sameCase.mpr same)
          have below : toUpper first ≤ first := by omega
          rcases atLast.resolve_left lastOther with upperLast | titleLast
          · -- The upper form reaches from below the range to its end.
            omega
          · -- The two forms are two apart, with room for one character between them: the end.
            have apart : toLower first ≤ toLower last → value = last ∧ toLower first = toLower last := by omega
            have ascends : toLower first ≤ toLower last := by
              by_cases alone : first = last
              · rw [alone]
              · omega
            obtain ⟨rfl, sameLower⟩ := apart ascends
            exact kept ⟨rfl, ⟨lastOther, by omega⟩, sameLower, by omega⟩

theorem strays_of_not_mixed {first last : Int}
    (alike : first ≤ 0x7F → last ≤ 0x7F → (toLower first = first ↔ toLower last = last)) :
    (classify first last).strays = [] := by
  unfold strays
  refine if_neg ?_
  rintro ⟨mixed, firstAscii, lastAscii⟩
  rw [mixedCase_eq_false.mpr (alike firstAscii lastAscii)] at mixed
  cases mixed

/-- There is nothing to warn of in the lower form of a range. -/
theorem strays_lower (first last : Int) : (classify (toLower first) (toLower last)).strays = [] :=
  strays_of_not_mixed fun firstAscii lastAscii =>
    iff_of_true (toLower_toLower_of_ascii firstAscii) (toLower_toLower_of_ascii lastAscii)

/-- There is nothing to warn of in the upper form of a range that is split. -/
theorem strays_upper {first last : Int} (split : (classify first last).isSingle = false) :
    (classify (toUpper first) (toUpper last)).strays = [] := by
  obtain ⟨_, parallel, cased⟩ := isSingle_eq_false.mp split
  refine strays_of_not_mixed fun firstAscii lastAscii => ?_
  exact iff_of_false (toLower_toUpper_of_ascii cased firstAscii) (toLower_toUpper_of_ascii (by omega) lastAscii)

end CaseRange

end GrammarNetwork.Unicode
