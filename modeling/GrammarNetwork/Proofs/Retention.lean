import GrammarNetwork.Proofs.Languages
import GrammarNetwork.Proofs.Ranges
import GrammarNetwork.Proofs.SetItems

/-! What a rule still matches when case does not matter in it. A range is matched in both cases and keeps its characters,
but for a letter of title case, which is neither of the two. -/

namespace GrammarNetwork

open Literal Unicode

namespace SetPart

/-- In both cases a part has all the characters that it has as it is, but for those of title case. -/
theorem covers_keeps {part : SetPart} {value : Int} (covered : Interval.Covers (part.forms false) value)
    (kept : ¬IsTitleCase value) : Interval.Covers (part.forms true) value := by
  have ranged {first last : Int} (covered : Interval.Covers (CaseRange.forms false first last) value) :
      Interval.Covers (CaseRange.forms true first last) value := by
    obtain ⟨lower, upper⟩ : first ≤ value ∧ value ≤ last := by simpa [CaseRange.forms_false] using covered
    exact (CaseRange.covers_forms lower upper).mpr fun loses => kept loses.2.1
  cases part with
  | codePoint code => exact ranged covered
  | range first last => exact ranged covered
  | set symbols => exact covered

end SetPart

theorem Reading.contains_keeps {reading : Reading} {value : Int}
    (contained : (reading.symbols false).contains value = true) (kept : ¬IsTitleCase value) :
    (reading.symbols true).contains value = true := by
  obtain ⟨part, member, covered⟩ := SetPart.contains_gathered.mp contained
  exact SetPart.contains_gathered.mpr ⟨part, member, SetPart.covers_keeps covered kept⟩

/-- An item gives a lexer set the same characters and more, but for those of title case. -/
theorem Element.setPart_keeps {item : Element} {part : SetPart} {value : Int} (found : item.setPart? false = some part)
    (covered : Interval.Covers (part.forms false) value) (kept : ¬IsTitleCase value) :
    ∃ more, item.setPart? true = some more ∧ Interval.Covers (more.forms true) value := by
  obtain ⟨form, place⟩ := item
  cases form with
  | charSet text =>
      obtain rfl := Option.some.inj found
      refine ⟨_, rfl, ?_⟩
      exact IntervalSet.contains_iff.mp (Reading.contains_keeps (IntervalSet.contains_iff.mpr covered) kept)
  | range first last => exact ⟨part, found, SetPart.covers_keeps covered kept⟩
  | literal text => exact ⟨part, found, SetPart.covers_keeps covered kept⟩
  | _ => cases found

/-- The characters that the items of a lexer set come to. -/
def setSymbols (ignoring : Bool) (items : List Element) : IntervalSet :=
  SetPart.gathered ignoring (items.filterMap (Element.setPart? ignoring))

theorem setSymbols_keeps {items : List Element} {value : Int}
    (contained : (setSymbols false items).contains value = true) (kept : ¬IsTitleCase value) :
    (setSymbols true items).contains value = true := by
  simp only [setSymbols, SetPart.contains_gathered, List.mem_filterMap] at contained ⊢
  obtain ⟨part, ⟨item, listed, found⟩, covered⟩ := contained
  obtain ⟨more, also, covers⟩ := Element.setPart_keeps found covered kept
  exact ⟨more, ⟨item, listed, also⟩, covers⟩

/-- The label of a transition that matches a character. -/
def Label.isText : Label → Bool
  | .atom _ => true
  | .range _ _ => true
  | .set _ => true
  | _ => false

theorem Label.mem_words_of_isText {vocabulary : IntervalSet} {meanings : Meanings} {action : Option LexerAction}
    {label : Label} (text : label.isText = true) {word : Word} :
    word ∈ label.words vocabulary meanings action ↔
      ∃ value, label.Emits vocabulary action [.symbol value] ∧ word = [.symbol value] := by
  cases label with
  | atom symbol =>
      constructor
      · rintro rfl
        exact ⟨symbol, rfl, rfl⟩
      · rintro ⟨value, emits, rfl⟩
        exact emits
  | range first last =>
      constructor
      · rintro ⟨value, lower, upper, rfl⟩
        exact ⟨value, ⟨value, lower, upper, rfl⟩, rfl⟩
      · rintro ⟨value, emits, rfl⟩
        exact emits
  | set symbols =>
      constructor
      · rintro ⟨value, contained, rfl⟩
        exact ⟨value, ⟨value, contained, rfl⟩, rfl⟩
      · rintro ⟨value, emits, rfl⟩
        exact emits
  | _ => cases text

theorem isText_rangeLabel (first last : Int) : (rangeLabel first last).isText = true := by
  unfold rangeLabel
  split <;> rfl

theorem Build.isText_formsLabel (ignoring : Bool) (first last : Int) :
    (formsLabel ignoring first last).isText = true := by
  simp only [formsLabel]
  split
  · rfl
  · exact isText_rangeLabel first last

theorem Build.isText_lexerSetLabel (symbols : IntervalSet) : (lexerSetLabel symbols false).isText = true := by
  simp only [lexerSetLabel, Bool.false_eq_true, if_false]
  split
  · exact isText_rangeLabel _ _
  · rfl

theorem Build.emits_lexerSetLabel {vocabulary symbols : IntervalSet} {action : Option LexerAction} {value : Int} :
    (lexerSetLabel symbols false).Emits vocabulary action [.symbol value] ↔ symbols.contains value = true := by
  simp only [lexerSetLabel, Bool.false_eq_true, if_false]
  split
  · rename_i interval alone
    rw [emits_rangeLabel, IntervalSet.contains_iff, alone]
    simp
  · exact emits_set

/-- The words of one language in which no letter is of title case are words of the other. -/
def KeepsWords (plain folded : Language Letter) : Prop :=
  ∀ word ∈ plain, (∀ value, Letter.symbol value ∈ word → ¬IsTitleCase value) → word ∈ folded

namespace KeepsWords

theorem zero (folded : Language Letter) : KeepsWords 0 folded :=
  fun _ member => by cases member

theorem one : KeepsWords 1 1 :=
  fun _ member _ => member

theorem mul {plain folded more other : Language Letter} (first : KeepsWords plain folded)
    (second : KeepsWords more other) : KeepsWords (plain * more) (folded * other) := by
  rintro word ⟨left, here, right, there, rfl⟩ kept
  exact Language.append_mem_mul
    (first left here fun value member => kept value (List.mem_append_left right member))
    (second right there fun value member => kept value (List.mem_append_right left member))

section Matching

variable {vocabulary : IntervalSet} {meanings : Meanings} {action other : Option LexerAction}

/-- Of labels it is enough to look at the characters. -/
theorem of_labels {label fold : Label} (text : label.isText = true) (also : fold.isText = true)
    (keeps : ∀ value, label.Emits vocabulary action [.symbol value] → ¬IsTitleCase value →
      fold.Emits vocabulary other [.symbol value]) :
    KeepsWords (label.words vocabulary meanings action) (fold.words vocabulary meanings other) := by
  intro word member kept
  obtain ⟨value, emits, rfl⟩ := (Label.mem_words_of_isText text).mp member
  exact (Label.mem_words_of_isText also).mpr ⟨value, keeps value emits (kept value (List.mem_singleton.mpr rfl)), rfl⟩

theorem of_range (first last : Int) :
    KeepsWords ((Build.formsLabel false first last).words vocabulary meanings action)
      ((Build.formsLabel true first last).words vocabulary meanings other) := by
  refine of_labels (Build.isText_formsLabel _ _ _) (Build.isText_formsLabel _ _ _) fun value emits kept => ?_
  rw [Build.emits_formsLabel] at emits ⊢
  exact @SetPart.covers_keeps (.range first last) value emits kept

/-- A text is matched character by character. -/
theorem of_text (text : List Char) :
    KeepsWords
      ((text.map fun letter => Build.formsLabel false letter.toNat letter.toNat).map
        (Label.words vocabulary meanings action)).prod
      ((text.map fun letter => Build.formsLabel true letter.toNat letter.toNat).map
        (Label.words vocabulary meanings other)).prod := by
  induction text with
  | nil => exact one
  | cons letter text ih =>
      simp only [List.map_cons, List.prod_cons]
      exact (of_range _ _).mul ih

theorem of_chain {label fold : Label} (keeps : KeepsWords (label.words vocabulary meanings action)
    (fold.words vocabulary meanings other)) :
    KeepsWords ((Leaf.chain [label]).words vocabulary meanings action)
      ((Leaf.chain [fold]).words vocabulary meanings other) := by
  simpa [Leaf.words] using keeps

end Matching

end KeepsWords

/-- A literal, a range or a set that is not inverted. -/
def Element.isText (element : Element) : Bool :=
  match element.form with
  | .literal _ => true
  | .charSet _ => true
  | .range _ _ => true
  | .set _ inverted => !inverted
  | _ => false

/-- What such an element comes to where letters are matched in both cases or as they are. -/
def Element.textLeaf? (ignoring : Bool) (element : Element) : Option Leaf :=
  match element.form with
  | .literal text =>
      some (.chain ((((stringValue? text).map String.toList).getD []).map fun letter =>
        Build.formsLabel ignoring letter.toNat letter.toNat))
  | .charSet text => some (.chain [.set ((readCharSet text).symbols ignoring)])
  | .range first last =>
      some (((Build.rangeEnds first last).map fun ends => .chain [Build.formsLabel ignoring ends.1 ends.2]).getD .broken)
  | .set items inverted =>
      if ∀ item ∈ items, item.isSetItem = true then
        some (.chain [Build.lexerSetLabel (setSymbols ignoring items) inverted])
      else none
  | _ => none

/-- The words of such an element are kept. -/
theorem KeepsWords.of_element {element : Element} (textual : element.isText = true) {vocabulary : IntervalSet}
    {meanings : Meanings} {action other : Option LexerAction} :
    KeepsWords (((element.textLeaf? false).map (Leaf.words vocabulary meanings action)).getD 0)
      (((element.textLeaf? true).map (Leaf.words vocabulary meanings other)).getD 0) := by
  obtain ⟨form, place⟩ := element
  cases form with
  | literal text => exact of_text _
  | charSet text =>
      refine of_chain (of_labels rfl rfl fun value emits kept => ?_)
      rw [emits_set] at emits ⊢
      exact Reading.contains_keeps emits kept
  | range first last =>
      simp only [Element.textLeaf?]
      cases Build.rangeEnds first last with
      | none => exact zero _
      | some ends => exact of_chain (of_range ends.1 ends.2)
  | set items inverted =>
      obtain rfl : inverted = false := by simpa [Element.isText] using textual
      simp only [Element.textLeaf?]
      split
      · refine of_chain (of_labels (Build.isText_lexerSetLabel _) (Build.isText_lexerSetLabel _)
          fun value emits kept => ?_)
        rw [Build.emits_lexerSetLabel] at emits ⊢
        exact setSymbols_keeps emits kept
      · exact zero _
  | _ => cases textual

namespace Plan

variable {plan : Plan} {index : Nat}

theorem answer_addSetItems {root : String} {position : Option Position} (items : List Element) :
    Build.answer? index (Build.addSetItems plan root position .empty items) =
      if ∀ item ∈ items, item.isSetItem = true then some (setSymbols (Build.ignoresCase plan index) items) else none := by
  split
  · rename_i allowed
    exact (Build.tells_addSetItems items allowed).answer
  · rename_i refused
    push Not at refused
    obtain ⟨item, listed, wrong⟩ := refused
    obtain ⟨cause, breaks⟩ := @Build.breaks_addSetItems plan (Build.ignoresCase plan index) position root item
      (Bool.eq_false_iff.mpr wrong) items .empty listed
    obtain ⟨failure, broken⟩ := breaks (Build.blank index) rfl
    simp [Build.answer?, broken]

/-- In a lexer such an element depends on nothing but on whether case matters. -/
theorem lexerLeaf?_of_isText {element : Element} (textual : element.isText = true) :
    plan.lexerLeaf? index element = element.textLeaf? (Build.ignoresCase plan index) := by
  obtain ⟨form, place⟩ := element
  cases form with
  | literal text => simp only [lexerLeaf?, Build.rangeSymbol_eq_formsLabel, Element.textLeaf?]
  | charSet text =>
      simp only [lexerLeaf?, (Build.tells_charSet text).answer]
      rfl
  | range first last =>
      simp only [lexerLeaf?, Build.rangeSymbol_eq_formsLabel, Element.textLeaf?]
      cases Build.rangeEnds first last <;> rfl
  | set items inverted =>
      simp only [lexerLeaf?, Element.textLeaf?, answer_addSetItems]
      split <;> rfl
  | _ => cases textual

theorem elementWords_of_isText {element : Element} (lexer : plan.kind = .lexer) (textual : element.isText = true)
    {vocabulary : IntervalSet} {meanings : Meanings} {acts : Item → Option LexerAction} {site : Site} :
    plan.elementWords vocabulary meanings acts site element =
      ((plan.lexerLeaf? site.rule element).map
        (Leaf.words vocabulary meanings (acts (.element site element)))).getD 0 := by
  obtain ⟨form, place⟩ := element
  cases form with
  | literal text => simp only [elementWords, leaf?, lexer]
  | charSet text => simp only [elementWords, leaf?, lexer]
  | range first last => simp only [elementWords, leaf?, lexer]
  | set items inverted => simp only [elementWords, leaf?, lexer]
  | _ => cases textual

end Plan

/-- A rule where case does not matter matches every character of a range, unless it is one of title case that is alone or
with its upper case in the range, and every word that is matched where case matters, unless it has letters of title case. -/
theorem Plan.caseInsensitive_keeps (plan folded : Plan) (site other : Site) (lexer : plan.kind = .lexer)
    (also : folded.kind = .lexer) (sensitive : Build.ignoresCase plan site.rule = false)
    (insensitive : Build.ignoresCase folded other.rule = true) :
    (∀ (first last value : Int) (position : Option Position) (before : Construction), first ≤ value → value ≤ last →
      before.rule = some other.rule →
      (∀ target, ∃ label told,
        Build.rangeTransition folded target first last position before = .ok ⟨target, label⟩ (before.tell told) ∧
        ∀ vocabulary action, label.Emits vocabulary action [.symbol value] ↔ ¬CaseRange.Loses first last value) ∧
      ∀ root set, ∃ added told,
        Build.addRange folded root position set first last before = .ok added (before.tell told) ∧
        (added.contains value = true ↔ ¬CaseRange.Loses first last value ∨ set.contains value = true)) ∧
    ∀ element : Element, element.isText = true → ∀ vocabulary meanings acts,
      ∀ word ∈ plan.elementWords vocabulary meanings acts site element,
        (∀ value, Letter.symbol value ∈ word → ¬IsTitleCase value) →
        word ∈ folded.elementWords vocabulary meanings acts other element := by
  have mode {before : Construction} (current : before.rule = some other.rule) : before.ignoresCase folded = true := by
    rw [Construction.ignoresCase, current, ← insensitive]
    rfl
  refine ⟨fun first last value position before lower upper current => ⟨fun target => ?_, fun root set => ?_⟩, ?_⟩
  · refine ⟨_, _, Build.tells_rangeTransition target first last before (mode current), fun vocabulary action => ?_⟩
    rw [Build.emits_formsLabel, CaseRange.covers_forms lower upper]
  · refine ⟨_, _, Build.tells_addRange set first last before (mode current), ?_⟩
    rw [IntervalSet.contains_insertAll, ← CaseRange.covers_forms lower upper]
    rfl
  · intro element textual vocabulary meanings acts
    rw [elementWords_of_isText lexer textual, elementWords_of_isText also textual, lexerLeaf?_of_isText textual,
      lexerLeaf?_of_isText textual, sensitive, insensitive]
    exact KeepsWords.of_element textual

/-- Two lexers that differ in whether case matters. -/
theorem Plan.caseInsensitive_keeps_text :
    (∀ (first last value : Int) (position : Option Position) (before : Construction), first ≤ value → value ≤ last →
      before.rule = some 0 →
      (∀ target, ∃ label told,
        Build.rangeTransition caseInsensitiveLexer target first last position before =
          .ok ⟨target, label⟩ (before.tell told) ∧
        ∀ vocabulary action, label.Emits vocabulary action [.symbol value] ↔ ¬CaseRange.Loses first last value) ∧
      ∀ root set, ∃ added told,
        Build.addRange caseInsensitiveLexer root position set first last before = .ok added (before.tell told) ∧
        (added.contains value = true ↔ ¬CaseRange.Loses first last value ∨ set.contains value = true)) ∧
    ∀ element : Element, element.isText = true → ∀ vocabulary meanings acts,
      ∀ word ∈ caseSensitiveLexer.elementWords vocabulary meanings acts ⟨0, []⟩ element,
        (∀ value, Letter.symbol value ∈ word → ¬IsTitleCase value) →
        word ∈ caseInsensitiveLexer.elementWords vocabulary meanings acts ⟨0, []⟩ element :=
  caseInsensitive_keeps caseSensitiveLexer caseInsensitiveLexer ⟨0, []⟩ ⟨0, []⟩ rfl rfl rfl rfl

/-- The letter `ǅ` is matched as `Ǆ` and as `ǆ`, but not as itself. -/
theorem Build.titleCase_lost :
    (∃ label told,
      rangeTransition caseInsensitiveLexer 1 0x1C5 0x1C5 none (blank 0) = .ok ⟨1, label⟩ ((blank 0).tell told) ∧
      ∀ vocabulary action, ¬label.Emits vocabulary action [.symbol 0x1C5]) ∧
    ∃ set told,
      addRange caseInsensitiveLexer "[ǅ]" none .empty 0x1C5 0x1C5 (blank 0) = .ok set ((blank 0).tell told) ∧
      set.contains 0x1C5 = false := by
  have lost : ¬Interval.Covers (CaseRange.forms true 0x1C5 0x1C5) 0x1C5 := by
    rw [CaseRange.covers_forms (Int.le_refl _) (Int.le_refl _), not_not]
    exact ⟨rfl, ⟨by decide +kernel, by decide +kernel⟩, rfl, rfl⟩
  have transition : Tells caseInsensitiveLexer true (rangeTransition caseInsensitiveLexer 1 0x1C5 0x1C5 none) _ _ :=
    tells_rangeTransition 1 0x1C5 0x1C5
  have adds : Tells caseInsensitiveLexer true (addRange caseInsensitiveLexer "[ǅ]" none .empty 0x1C5 0x1C5) _ _ :=
    tells_addRange .empty 0x1C5 0x1C5
  refine ⟨⟨_, _, transition (blank 0) rfl, fun _ _ emits => lost (emits_formsLabel.mp emits)⟩,
    _, _, adds (blank 0) rfl, ?_⟩
  rw [← Bool.not_eq_true]
  exact fun contained => lost (IntervalSet.contains_ofIntervals.mp contained)

end GrammarNetwork
