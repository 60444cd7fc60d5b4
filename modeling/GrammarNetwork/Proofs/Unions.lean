import GrammarNetwork.Proofs.Enactments
import GrammarNetwork.Proofs.Retention

/-! Lexer sets as unions: a set has the characters of its items and no others, and its label is determined by them. So the
order of the items does not matter, nor how often one of them stands in the set. -/

namespace GrammarNetwork

open Literal Unicode

/-- The item stands for this character in a lexer set. -/
def Element.StandsFor (ignoring : Bool) (item : Element) (value : Int) : Prop :=
  match item.form with
  | .range first last => ∃ low high : Nat, charValue? first = some low ∧ charValue? last = some high ∧ low ≤ high ∧
      Interval.Covers (CaseRange.forms ignoring low high) value
  | .charSet text => ((readCharSet text).symbols ignoring).contains value = true
  | .literal text => ∃ code : Nat, charValue? text = some code ∧
      Interval.Covers (CaseRange.forms ignoring code code) value
  | _ => False

theorem Build.rangeEnds_eq_some {first last : String} {ends : Int × Int} : rangeEnds first last = some ends ↔
    ∃ low high : Nat, charValue? first = some low ∧ charValue? last = some high ∧ low ≤ high ∧ ends = (↑low, ↑high) := by
  unfold rangeEnds
  cases charValue? first with
  | none => simp
  | some low =>
      cases charValue? last with
      | none => simp
      | some high =>
          by_cases reversed : high < low
          · simp only [if_pos reversed, reduceCtorEq, Option.some.injEq, false_iff]
            rintro ⟨_, _, rfl, rfl, ascends, _⟩
            omega
          · simp only [if_neg reversed, Option.some.injEq]
            constructor
            · rintro rfl
              exact ⟨low, high, rfl, rfl, by omega, rfl⟩
            · rintro ⟨_, _, rfl, rfl, _, same⟩
              exact same.symm

theorem Element.standsFor_iff {ignoring : Bool} {item : Element} {value : Int} : item.StandsFor ignoring value ↔
    ∃ part, item.setPart? ignoring = some part ∧ Interval.Covers (part.forms ignoring) value := by
  obtain ⟨form, place⟩ := item
  cases form with
  | range first last =>
      simp only [StandsFor, setPart?, Option.map_eq_some_iff, Build.rangeEnds_eq_some]
      constructor
      · rintro ⟨low, high, atFirst, atLast, ascends, covered⟩
        exact ⟨_, ⟨_, ⟨low, high, atFirst, atLast, ascends, rfl⟩, rfl⟩, covered⟩
      · rintro ⟨_, ⟨_, ⟨low, high, atFirst, atLast, ascends, rfl⟩, rfl⟩, covered⟩
        exact ⟨low, high, atFirst, atLast, ascends, covered⟩
  | charSet text =>
      simp only [StandsFor, setPart?, Option.some.injEq, exists_eq_left']
      exact IntervalSet.contains_iff
  | literal text =>
      simp only [StandsFor, setPart?, Option.map_eq_some_iff]
      constructor
      · rintro ⟨code, found, covered⟩
        exact ⟨_, ⟨code, found, rfl⟩, covered⟩
      · rintro ⟨_, ⟨code, found, rfl⟩, covered⟩
        exact ⟨code, found, covered⟩
  | _ => simp [StandsFor, setPart?]

theorem contains_setSymbols {ignoring : Bool} {items : List Element} {value : Int} :
    (setSymbols ignoring items).contains value = true ↔ ∃ item ∈ items, item.StandsFor ignoring value := by
  simp only [setSymbols, SetPart.contains_gathered, List.mem_filterMap, Element.standsFor_iff]
  constructor
  · rintro ⟨part, ⟨item, listed, found⟩, covered⟩
    exact ⟨item, listed, part, found, covered⟩
  · rintro ⟨item, listed, part, found, covered⟩
    exact ⟨part, ⟨item, listed, found⟩, covered⟩

/-- Which items there are determines the characters, not their order or how often each is there. -/
theorem setSymbols_eq_of_mem {ignoring : Bool} {items others : List Element}
    (same : ∀ item, item ∈ others ↔ item ∈ items) : setSymbols ignoring others = setSymbols ignoring items :=
  IntervalSet.eq_of_contains fun value => by simp only [contains_setSymbols, same]

/-- The label that goes with a set of characters: one that names a character or a range if the set is no more than that. -/
inductive SetLabel (symbols : IntervalSet) : (inverted : Bool) → Label → Prop
  | inverted : SetLabel symbols true (.notSet symbols)
  | atom {value : Int} (alone : ∀ other, symbols.contains other = true ↔ other = value) :
      SetLabel symbols false (.atom value)
  | range {first last : Int} (ascends : first < last)
      (whole : ∀ other, symbols.contains other = true ↔ first ≤ other ∧ other ≤ last) :
      SetLabel symbols false (.range first last)
  | set (noRange : ¬∃ first last, first ≤ last ∧
      ∀ other, symbols.contains other = true ↔ first ≤ other ∧ other ≤ last) : SetLabel symbols false (.set symbols)

theorem IntervalSet.intervals_of_range {symbols : IntervalSet} {first last : Int} (ascends : first ≤ last)
    (whole : ∀ other, symbols.contains other = true ↔ first ≤ other ∧ other ≤ last) :
    symbols.intervals = [⟨first, last⟩] := by
  have same : symbols = .ofRange first last := eq_of_contains fun other => by rw [whole, contains_ofRange]
  rw [same, ofRange, insertRange, dif_pos ascends]
  rfl

theorem setLabel_lexerSetLabel (symbols : IntervalSet) (inverted : Bool) :
    SetLabel symbols inverted (Build.lexerSetLabel symbols inverted) := by
  cases inverted with
  | true => exact .inverted
  | false =>
      simp only [Build.lexerSetLabel, Bool.false_eq_true, if_false]
      split
      · rename_i interval only
        have whole (other : Int) : symbols.contains other = true ↔ interval.first ≤ other ∧ other ≤ interval.last := by
          simp [IntervalSet.contains_iff, only]
        have inhabited : interval.first ≤ interval.last := symbols.inhabited interval (by simp [only])
        unfold rangeLabel
        split
        · rename_i single
          exact .atom fun other => by rw [whole]; omega
        · rename_i several
          exact .range (by omega) whole
      · rename_i several
        refine .set ?_
        rintro ⟨first, last, ascends, whole⟩
        exact several _ (IntervalSet.intervals_of_range ascends whole)

namespace Build

variable {plan : Plan} {items : List Element} {inverted : Bool} {position : Option Position}

theorem atom_eq (label : Label) (before : Construction) : atom label before =
    .ok ⟨before.network.nextId, before.network.nextId + 1⟩
      { before with network := before.network.addAtom before.rule label } := by
  have live : ((before.network.addState { rule := before.rule, kind := .basic }).addState
      { rule := before.rule, kind := .basic }).isLive before.network.nextId = true := by
    simp [Network.isLive]
  have meets : Meets (atom label) before (fun handle after =>
      handle = ⟨before.network.nextId, before.network.nextId + 1⟩ ∧
        after = { before with network := before.network.addAtom before.rule label }) fun _ => False := by
    simp only [atom, meets_bind, meets_newState, meets_pure, Network.nextId_addState, true_and]
    exact (meets_addTransition live).mpr rfl
  unfold Meets at meets
  split at meets
  · rename_i reached
    rw [reached, meets.1, meets.2]
  · exact meets.elim

theorem setLeaf_eq (lexer : plan.kind = .lexer) (allowed : ∀ item ∈ items, item.isSetItem = true)
    (before : Construction) : ∃ told : List Diagnostic,
      setLeaf plan items inverted position before =
        .ok ⟨before.network.nextId, before.network.nextId + 1⟩
          { before.tell told with
            network := before.network.addAtom before.rule
              (lexerSetLabel (setSymbols (before.ignoresCase plan) items) inverted) } := by
  have tells : Tells plan (before.ignoresCase plan)
      (addSetItems plan (Element.text ⟨.set items inverted, position⟩) position .empty items) _ _ :=
    tells_addSetItems items allowed
  have added := tells before rfl
  rw [setLeaf, lexer]
  simp only [Bind.bind, EStateM.bind, added]
  exact ⟨_, atom_eq _ _⟩

/-- A lexer set of items that can stand in one makes one transition. It is labelled with the characters that some item
stands for, each item on its own, and in the way that goes with them; so other items in another order or repeated make the
same transition, if they are the same items. -/
theorem setLeaf_union (plan : Plan) (items : List Element) (inverted : Bool) (position : Option Position)
    (before : Construction) (lexer : plan.kind = .lexer) (allowed : ∀ item ∈ items, item.isSetItem = true) :
    ∃ (symbols : IntervalSet) (label : Label),
      (∀ others : List Element, (∀ item, item ∈ others ↔ item ∈ items) → ∃ told : List Diagnostic,
        setLeaf plan others inverted position before =
          .ok ⟨before.network.nextId, before.network.nextId + 1⟩
            { before.tell told with network := before.network.addAtom before.rule label }) ∧
      SetLabel symbols inverted label ∧
      (∀ value, symbols.contains value = true ↔ ∃ item ∈ items, item.StandsFor (before.ignoresCase plan) value) ∧
      ∀ text place, ∃ told : List Diagnostic,
        charSet plan text place before =
          .ok ((readCharSet text).symbols (before.ignoresCase plan)) (before.tell told) := by
  refine ⟨setSymbols (before.ignoresCase plan) items, _, fun others same => ?_, setLabel_lexerSetLabel _ inverted,
    fun value => contains_setSymbols, fun text place => ⟨_, tells_charSet text before rfl⟩⟩
  rw [← setSymbols_eq_of_mem same]
  exact setLeaf_eq lexer (fun item listed => allowed item ((same item).mp listed)) before

/-- Items of all four kinds: `'q'`, `'r'..'t'`, `[0-9]` and a token, which stands for no character. -/
def mixedItems : List Element :=
  [⟨.literal "'q'", none⟩, ⟨.range "'r'" "'t'", none⟩, ⟨.charSet "[0-9]", none⟩, ⟨.token "S", none⟩]

/-- A set of these items where case does not matter. -/
theorem setLeaf_union_mixed :
    caseInsensitiveLexer.kind = .lexer ∧ (∀ item ∈ mixedItems, item.isSetItem = true) ∧
    ∃ (symbols : IntervalSet) (label : Label),
      (∀ others : List Element, (∀ item, item ∈ others ↔ item ∈ mixedItems) → ∃ told : List Diagnostic,
        setLeaf caseInsensitiveLexer others false none (blank 0) =
          .ok ⟨0, 1⟩ { (blank 0).tell told with network := (blank 0).network.addAtom (some 0) label }) ∧
      SetLabel symbols false label ∧
      (∀ value, symbols.contains value = true ↔ ∃ item ∈ mixedItems, item.StandsFor true value) ∧
      ∀ text place, ∃ told : List Diagnostic,
        charSet caseInsensitiveLexer text place (blank 0) = .ok ((readCharSet text).symbols true) ((blank 0).tell told) :=
  have allowed : ∀ item ∈ mixedItems, item.isSetItem = true := by simp [mixedItems, Element.isSetItem, itemFaults]
  ⟨rfl, allowed, setLeaf_union caseInsensitiveLexer mixedItems false none (blank 0) rfl allowed⟩

/-- The order of the items does not show in the label: these are one range. -/
example : lexerSetLabel (setSymbols false [⟨.range "'r'" "'t'", none⟩, ⟨.literal "'q'", none⟩]) false =
    .range 0x71 0x74 := by decide +kernel

end Build

end GrammarNetwork
