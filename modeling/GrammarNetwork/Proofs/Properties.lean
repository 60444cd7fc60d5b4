import GrammarNetwork.Proofs.Agreement

/-! Properties: the set of a property has the code points of the characters with the property and nothing else, wherever
their runs begin and end. The runs are found from the top of the code space downwards; a scan upwards that keeps the start of
the run it is in finds the same set. The complement of a property has the rest of the code space. -/

namespace GrammarNetwork

namespace Unicode

section Runs

variable {value : Int}

theorem covers_extendRuns {code : Nat} {runs : List Interval} (formed : RunsFrom (code + 1) runs) :
    Interval.Covers (extendRuns code runs) value ↔ value = code ∨ Interval.Covers runs value := by
  cases runs with
  | nil =>
      simp only [extendRuns, Interval.covers_cons, Interval.not_covers_nil, or_false]
      omega
  | cons head rest =>
      have inhabited := formed.2.1 head List.mem_cons_self
      simp only [extendRuns]
      split
      · simp only [Interval.covers_cons, ← or_assoc]
        refine or_congr_left ?_
        omega
      · simp only [Interval.covers_cons]
        refine or_congr_left ?_
        omega

/-- The runs below `count` have the numbers below `count` that satisfy the predicate. -/
theorem covers_collectRuns (holds : Nat → Bool) (count : Nat) (runs : List Interval) (formed : RunsFrom count runs) :
    Interval.Covers (collectRuns holds count runs) value ↔
      (∃ code < count, holds code = true ∧ value = code) ∨ Interval.Covers runs value := by
  induction count generalizing runs with
  | zero => simp [collectRuns]
  | succ code ih =>
      rw [collectRuns, Nat.exists_lt_succ_right, or_assoc]
      cases held : holds code with
      | true =>
          rw [if_pos rfl, ih _ (runsFrom_extendRuns code runs formed), covers_extendRuns formed]
          simp
      | false =>
          rw [if_neg Bool.false_ne_true, ih runs formed.weaken]
          simp

end Runs

/-- The integer is the code point of a character with the property. -/
def HasProperty (holds : Char → Bool) (value : Int) : Prop :=
  ∃ character, holds character = true ∧ value = character.toNat

theorem hasProperty_iff {holds : Char → Bool} {value : Int} :
    HasProperty holds value ↔ ∃ code < maxCodePoint + 1, (scalar? code).any holds = true ∧ value = code := by
  constructor
  · rintro ⟨character, held, rfl⟩
    refine ⟨character.toNat, Nat.lt_succ_of_le (Literal.toNat_le_maxCodePoint character), ?_, rfl⟩
    rw [Literal.scalar?_toNat, Option.any_some, held]
  · rintro ⟨code, _, held, rfl⟩
    cases scalar : scalar? code with
    | none => simp [scalar] at held
    | some character => exact ⟨character, by simpa [scalar] using held, by rw [Literal.scalar?_eq_some.mp scalar]⟩

theorem contains_collect {holds : Char → Bool} {value : Int} :
    (collect holds).contains value = true ↔ HasProperty holds value := by
  simp only [← IntervalSet.covers_iff, hasProperty_iff, collect, setOfRuns,
    covers_collectRuns _ _ _ (runsFrom_nil _), Interval.not_covers_nil, or_false]

/-- A scan through the numbers: the runs that are over, and where the run that it is in began. -/
structure Scan where
  runs : IntervalSet := .empty
  start : Option Nat := none

namespace Scan

/-- The scan comes to a number. A run is over at the first number that does not satisfy the predicate. -/
def step (holds : Nat → Bool) (scan : Scan) (code : Nat) : Scan :=
  match holds code, scan.start with
  | true, none => { scan with start := some code }
  | false, some first => { runs := scan.runs.insertRange first (code - 1), start := none }
  | _, _ => scan

/-- The scan of the numbers below `count`. -/
def upTo (holds : Nat → Bool) (count : Nat) : Scan :=
  (List.range count).foldl (step holds) {}

theorem upTo_succ (holds : Nat → Bool) (count : Nat) : upTo holds (count + 1) = (upTo holds count).step holds count := by
  rw [upTo, List.range_succ, List.foldl_append]
  rfl

/-- The number is in a run that is over or in the one that the scan is in. -/
def Has (scan : Scan) (count : Nat) (value : Int) : Prop :=
  scan.runs.contains value = true ∨ ∃ first, scan.start = some first ∧ (first : Int) ≤ value ∧ value < count

/-- The scan has found the numbers below `count` that satisfy the predicate. -/
structure Finds (holds : Nat → Bool) (count : Nat) (scan : Scan) : Prop where
  begun : ∀ first, scan.start = some first → first ≤ count
  has : ∀ value : Int, scan.Has count value ↔ ∃ code < count, holds code = true ∧ value = code

/-- A run that is over keeps its numbers, and the run that the scan is in gets the number if it satisfies the predicate. -/
theorem has_step {holds : Nat → Bool} {count : Nat} {scan : Scan} (begun : ∀ first, scan.start = some first → first ≤ count)
    (value : Int) :
    (scan.step holds count).Has (count + 1) value ↔ scan.Has count value ∨ holds count = true ∧ value = count := by
  cases start : scan.start with
  | none =>
      cases held : holds count with
      | true =>
          simp only [Has, step, held, start, Option.some.injEq, exists_eq_left', reduceCtorEq, false_and, exists_false,
            or_false, true_and]
          refine or_congr_right ?_
          omega
      | false => simp [Has, step, held, start]
  | some first =>
      have before := begun first start
      cases held : holds count with
      | true =>
          simp only [Has, step, held, start, Option.some.injEq, exists_eq_left', true_and, or_assoc]
          refine or_congr_right ?_
          omega
      | false =>
          simp only [Has, step, held, start, Option.some.injEq, exists_eq_left', reduceCtorEq, false_and, exists_false,
            or_false, Bool.false_eq_true, IntervalSet.contains_insertRange]
          rw [or_comm]
          refine or_congr_right ?_
          omega

theorem begun_step {holds : Nat → Bool} {count : Nat} {scan : Scan}
    (begun : ∀ first, scan.start = some first → first ≤ count) :
    ∀ first, (scan.step holds count).start = some first → first ≤ count + 1 := by
  intro first started
  unfold step at started
  split at started
  · cases started
    exact Nat.le_succ count
  · cases started
  · exact Nat.le_succ_of_le (begun first started)

theorem finds_upTo (holds : Nat → Bool) (count : Nat) : (upTo holds count).Finds holds count := by
  induction count with
  | zero => exact ⟨by simp [upTo], by simp [upTo, Has, IntervalSet.contains_iff, IntervalSet.empty]⟩
  | succ count ih =>
      rw [upTo_succ]
      refine ⟨begun_step ih.begun, fun value => ?_⟩
      rw [has_step ih.begun, ih.has, Nat.exists_lt_succ_right]

/-- The scan is in no run after a number that does not satisfy the predicate. -/
theorem start_step {holds : Nat → Bool} {scan : Scan} {code : Nat} (ends : holds code = false) :
    (scan.step holds code).start = none := by
  cases start : scan.start <;> simp [step, ends, start]

/-- The numbers of the runs up to `last`; the number behind it is looked at to end a run there. -/
def through (holds : Nat → Bool) (last : Nat) : IntervalSet :=
  (upTo holds (last + 2)).runs

theorem contains_through {holds : Nat → Bool} {last : Nat} (ends : holds (last + 1) = false) {value : Int} :
    (through holds last).contains value = true ↔ ∃ code < last + 1, holds code = true ∧ value = code := by
  have closed : (upTo holds (last + 2)).start = none := upTo_succ holds (last + 1) ▸ start_step ends
  have found := (finds_upTo holds (last + 2)).has value
  rw [Nat.exists_lt_succ_right] at found
  simpa [through, Has, closed, ends] using found

end Scan

/-- The number is the code point of a character with the property; the one behind the code space is not looked up. -/
def inCodeSpace (holds : Char → Bool) (code : Nat) : Bool :=
  decide (code ≤ maxCodePoint) && (scalar? code).any holds

/-- The set of a property as a scan upwards through the code space finds it. -/
def scanCodeSpace (holds : Char → Bool) : IntervalSet :=
  Scan.through (inCodeSpace holds) maxCodePoint

theorem inCodeSpace_end (holds : Char → Bool) : inCodeSpace holds (maxCodePoint + 1) = false := by
  rw [inCodeSpace, decide_eq_false (Nat.not_succ_le_self maxCodePoint), Bool.false_and]

theorem contains_scanCodeSpace {holds : Char → Bool} {value : Int} :
    (scanCodeSpace holds).contains value = true ↔ HasProperty holds value := by
  rw [scanCodeSpace, Scan.contains_through (inCodeSpace_end holds), hasProperty_iff]
  refine exists_congr fun code => and_congr_right fun below => ?_
  rw [inCodeSpace, decide_eq_true (Nat.le_of_lt_succ below), Bool.true_and]

/-- The set of a property has exactly the code points of the characters that satisfy the predicate, and a scan upwards finds
the same set. A known name is read as a set and, inverted, as the set of all other integers in the code space. -/
theorem property_exact (holds : Char → Bool) :
    (∀ value : Int, (collect holds).contains value = true ↔
      ∃ character, holds character = true ∧ value = character.toNat) ∧
    (∀ value : Int, (collect holds).contains value = true →
      0 ≤ value ∧ value ≤ maxCodePoint ∧ ¬(0xD800 ≤ value ∧ value ≤ 0xDFFF)) ∧
    scanCodeSpace holds = collect holds ∧
    ∀ (name : String) (set : IntervalSet), property? name = some set → ∃ others : IntervalSet,
      (∀ rest : List Char,
        Literal.readEscape ('\\' :: 'p' :: '{' :: (name.toList ++ '}' :: rest)) =
          ⟨.property set, name.toList.length + 4⟩ ∧
        Literal.readEscape ('\\' :: 'P' :: '{' :: (name.toList ++ '}' :: rest)) =
          ⟨.property others, name.toList.length + 4⟩) ∧
      ∀ value : Int, others.contains value = true ↔
        0 ≤ value ∧ value ≤ maxCodePoint ∧ ¬set.contains value = true := by
  refine ⟨fun value => contains_collect, fun value found => ?_, IntervalSet.eq_of_contains fun value => ?_,
    fun name set known => ⟨Literal.complementInCodeSpace set, fun rest => ⟨?_, ?_⟩, fun value => ?_⟩⟩
  · obtain ⟨character, _, rfl⟩ := contains_collect.mp found
    have inSpace := Literal.toNat_le_maxCodePoint character
    have noSurrogate := (Literal.exists_toNat_iff inSpace).mp ⟨character, rfl⟩
    omega
  · rw [contains_scanCodeSpace, contains_collect]
  · simpa using readEscape_property false known rest
  · simpa using readEscape_property true known rest
  · rw [Literal.complementInCodeSpace, IntervalSet.contains_complement, IntervalSet.contains_ofRange, and_assoc,
      Bool.not_eq_true]

/-- The property of the first 128 code points is known, and its complement begins behind them. -/
theorem property_exact_ascii : property? "ASCII" = some (.ofRange 0 0x7F) ∧ ∃ others : IntervalSet,
    (∀ value : Int, others.contains value = true ↔
      0 ≤ value ∧ value ≤ maxCodePoint ∧ ¬(IntervalSet.ofRange 0 0x7F).contains value = true) ∧
    others.contains 0x80 = true ∧ others.contains 0x7F = false := by
  have known : property? "ASCII" = some (.ofRange 0 0x7F) := by simp [property?]
  obtain ⟨others, _, exact⟩ := (property_exact isControl).2.2.2 "ASCII" _ known
  refine ⟨known, others, exact, ?_, ?_⟩
  · rw [exact, IntervalSet.contains_ofRange, maxCodePoint]
    omega
  · rw [← Bool.not_eq_true, exact, IntervalSet.contains_ofRange]
    omega

end Unicode

end GrammarNetwork
