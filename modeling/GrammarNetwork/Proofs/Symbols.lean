import GrammarNetwork.Proofs.Canonical
import GrammarNetwork.Proofs.Labels

/-! Symbols: what the transitions of a network match are token types and code points, so the number that stands for
the empty word is none of them. -/

namespace GrammarNetwork

/-- All members are symbols. The least symbol is the end of the input. -/
def IntervalSet.IsAlphabet (set : IntervalSet) : Prop :=
  ∀ value, set.contains value = true → endOfInput ≤ value

namespace IntervalSet

variable {set other : IntervalSet} {first last : Int}

theorem isAlphabet_empty : empty.IsAlphabet := by
  intro value member
  simp [contains_iff, empty] at member

namespace IsAlphabet

theorem first_le (alphabet : set.IsAlphabet) {interval : Interval} (listed : interval ∈ set.intervals) :
    endOfInput ≤ interval.first :=
  alphabet _ (contains_iff.mpr ⟨interval, listed, Int.le_refl _, set.inhabited interval listed⟩)

theorem insertRange (alphabet : set.IsAlphabet) (low : endOfInput ≤ first) :
    (set.insertRange first last).IsAlphabet := by
  intro value member
  rcases contains_insertRange.mp member with added | old
  · exact Int.le_trans low added.1
  · exact alphabet value old

theorem insertAll {added : List Interval} (alphabet : set.IsAlphabet)
    (low : ∀ interval ∈ added, endOfInput ≤ interval.first) : (set.insertAll added).IsAlphabet := by
  intro value member
  rcases (contains_insertAll added).mp member with ⟨interval, listed, above, _⟩ | old
  · exact Int.le_trans (low interval listed) above
  · exact alphabet value old

theorem union (alphabet : set.IsAlphabet) (more : other.IsAlphabet) : (set.union other).IsAlphabet :=
  alphabet.insertAll fun _ listed => more.first_le listed

end IsAlphabet

theorem isAlphabet_ofRange (low : endOfInput ≤ first) : (ofRange first last).IsAlphabet :=
  isAlphabet_empty.insertRange low

end IntervalSet

theorem IntervalSet.IsAlphabet.complement {vocabulary : IntervalSet} (alphabet : vocabulary.IsAlphabet)
    (set : IntervalSet) : (set.complement vocabulary).IsAlphabet :=
  fun value member => alphabet value (contains_complement.mp member).1

theorem Network.isAlphabet_vocabulary (network : Network) : network.vocabulary.IsAlphabet := by
  unfold Network.vocabulary
  split <;> exact IntervalSet.isAlphabet_ofRange (by decide)

namespace Unicode

/-- No run of the table is moved below the code points. -/
def StaysAbove (table : Array Shift) : Prop :=
  ∀ shift ∈ table, 0 ≤ shift.run.first + shift.distance

theorem shiftBy_nonneg {table : Array Shift} (stays : StaysAbove table) (code : Nat) : 0 ≤ shiftBy table code := by
  unfold shiftBy
  split
  · rename_i shift found
    split
    · rename_i inside
      have least := stays shift (bisect_eq_some _ _ found).1
      simp only [Run.contains, Bool.and_eq_true, decide_eq_true_eq] at inside
      omega
    · exact Int.natCast_nonneg code
  · exact Int.natCast_nonneg code

theorem staysAbove_lowerShifts : StaysAbove lowerShifts := by
  unfold StaysAbove
  decide +kernel

theorem staysAbove_upperShifts : StaysAbove upperShifts := by
  unfold StaysAbove
  decide +kernel

theorem le_toLower {code : Int} (low : endOfInput ≤ code) : endOfInput ≤ toLower code := by
  unfold toLower
  split
  · exact low
  · exact Int.le_trans (by decide) (shiftBy_nonneg staysAbove_lowerShifts _)

theorem le_toUpper {code : Int} (low : endOfInput ≤ code) : endOfInput ≤ toUpper code := by
  unfold toUpper
  split
  · exact low
  · exact Int.le_trans (by decide) (shiftBy_nonneg staysAbove_upperShifts _)

theorem isAlphabet_setOfRuns {runs : List Interval} (formed : RunsFrom 0 runs) :
    (setOfRuns runs formed).IsAlphabet := by
  intro value member
  obtain ⟨run, listed, above, _⟩ := IntervalSet.contains_iff.mp member
  exact Int.le_trans (by decide) (Int.le_trans (formed.2.2 run listed) above)

theorem isAlphabet_collect (holds : Char → Bool) : (collect holds).IsAlphabet := by
  unfold collect
  exact isAlphabet_setOfRuns _

theorem isAlphabet_property? {name : String} {set : IntervalSet} (found : property? name = some set) :
    set.IsAlphabet := by
  unfold property? at found
  repeat' split at found
  all_goals simp only [Option.some.injEq, reduceCtorEq] at found
  all_goals subst found
  all_goals first
    | with_reducible exact isAlphabet_collect _
    | exact IntervalSet.isAlphabet_ofRange (by decide)

end Unicode

namespace Literal

theorem isAlphabet_readEscape {text : List Char} {set : IntervalSet}
    (means : (readEscape text).meaning = .property set) : set.IsAlphabet := by
  have property : ∀ {inverted : Bool} {rest : List Char},
      (propertyEscape inverted rest).meaning = .property set → set.IsAlphabet := by
    intro inverted rest means
    unfold propertyEscape at means
    repeat' split at means
    all_goals simp only [EscapeMeaning.property.injEq, reduceCtorEq] at means
    · exact means ▸ (IntervalSet.isAlphabet_ofRange (by decide)).complement _
    · rename_i known _
      exact means ▸ Unicode.isAlphabet_property? known
  have digits : ∀ {rest : List Char}, (unicodeEscape rest).meaning ≠ .property set := by
    intro rest
    simp only [unicodeEscape]
    repeat' split
    all_goals simp
  unfold readEscape at means
  repeat' split at means
  all_goals first
    | exact property means
    | exact absurd means digits
    | cases means

end Literal

/-- What a character set says stands for symbols. -/
def CharSetToken.IsSymbolic : CharSetToken → Prop
  | .property set => set.IsAlphabet
  | _ => True

def Pending.IsSymbolic : Pending → Prop
  | .nothing => True
  | .codePoint code _ => endOfInput ≤ code
  | .property set => set.IsAlphabet

theorem isSymbolic_charSetTokens (text : List Char) : ∀ token ∈ charSetTokens text, token.IsSymbolic := by
  fun_induction charSetTokens text with
  | case1 => simp
  | case2 rest escape token ih =>
      refine List.forall_mem_cons.mpr ⟨?_, ih⟩
      simp only [token]
      split
      · trivial
      · rename_i set means
        exact Literal.isAlphabet_readEscape means
      · trivial
  | case3 first rest plain ih => exact List.forall_mem_cons.mpr ⟨trivial, ih⟩

namespace Build

section Yields

variable {α β : Type} {index : Nat}

/-- Whatever the step gives is good. -/
def Yields (step : Build α) (good : α → Prop) : Prop :=
  ∀ before, Meets step before (fun value _ => good value) fun _ => True

theorem yields_any (step : Build α) : Yields step fun _ => True := by
  intro before
  unfold Meets
  split <;> trivial

theorem yields_pure {value : α} {good : α → Prop} (holds : good value) : Yields (pure value) good :=
  fun _ => holds

theorem Yields.bind {step : Build α} {next : α → Build β} {good : α → Prop} {better : β → Prop}
    (first : Yields step good) (second : ∀ value, good value → Yields (next value) better) :
    Yields (step >>= next) better := fun before =>
  meets_bind.mpr ((first before).weaken (fun value after holds => second value holds after) fun _ _ => trivial)

theorem yields_then {step : Build α} {next : α → Build β} {good : β → Prop}
    (second : ∀ value, Yields (next value) good) : Yields (step >>= next) good :=
  (yields_any step).bind fun value _ => second value

theorem Yields.answer {step : Build α} {good : α → Prop} (yields : Yields step good) {value : α}
    (found : answer? index step = some value) : good value := by
  have meets := yields (blank index)
  unfold answer? at found
  unfold Meets at meets
  split at found
  · rename_i ended
    rw [ended] at meets
    cases found
    exact meets
  · cases found

end Yields

section Characters

variable {plan : Plan} {position : Option Position} {root : String} {set : IntervalSet} {first last : Int}

theorem yields_addExactRange (alphabet : set.IsAlphabet) (low : endOfInput ≤ first)
    (previous : Option RangeStatus) :
    Yields (addExactRange plan root position set first last previous) fun result => result.1.IsAlphabet := by
  unfold addExactRange
  simp only []
  repeat' first
    | exact yields_pure (alphabet.insertRange low)
    | refine yields_then fun _ => ?_
    | split

theorem yields_addRange (alphabet : set.IsAlphabet) (low : endOfInput ≤ first) :
    Yields (addRange plan root position set first last) IntervalSet.IsAlphabet := by
  have lower : endOfInput ≤ (Unicode.CaseRange.classify first last).lowerFirst := Unicode.le_toLower low
  have upper : endOfInput ≤ (Unicode.CaseRange.classify first last).upperFirst := Unicode.le_toUpper low
  unfold addRange
  refine yields_then fun insensitive => ?_
  split
  · refine yields_then fun _ => ?_
    split
    · exact (yields_addExactRange alphabet low _).bind fun _ one => yields_pure one
    · refine (yields_addExactRange alphabet lower _).bind fun _ one => ?_
      exact (yields_addExactRange one upper _).bind fun _ both => yields_pure both
  · exact (yields_addExactRange alphabet low _).bind fun _ one => yields_pure one

theorem yields_applyPending (alphabet : set.IsAlphabet) {pending : Pending} (symbolic : pending.IsSymbolic) :
    Yields (applyPending plan root position set pending) IntervalSet.IsAlphabet := by
  cases pending with
  | nothing => exact yields_pure alphabet
  | codePoint code opens => exact yields_addRange alphabet symbolic
  | property more => exact yields_pure (alphabet.union symbolic)

theorem yields_takeCodePoint (alphabet : set.IsAlphabet) {pending : Pending} (symbolic : pending.IsSymbolic)
    {code : Int} (low : endOfInput ≤ code) :
    Yields (takeCodePoint plan root position set pending code)
      fun result => result.1.IsAlphabet ∧ result.2.IsSymbolic := by
  unfold takeCodePoint
  split
  · rename_i low
    have range : Yields (addRange plan root position set low code) IntervalSet.IsAlphabet :=
      yields_addRange alphabet symbolic
    split
    · exact yields_then fun _ => range.bind fun _ one => yields_pure ⟨one, trivial⟩
    · exact range.bind fun _ one => yields_pure ⟨one, trivial⟩
  · exact (yields_applyPending alphabet symbolic).bind fun _ one => yields_pure ⟨one, low⟩

theorem yields_scanTokens (tokens : List CharSetToken) : ∀ {atStart : Bool} {set : IntervalSet} {pending : Pending},
    (∀ token ∈ tokens, token.IsSymbolic) → set.IsAlphabet → pending.IsSymbolic →
    Yields (scanTokens plan root position atStart tokens set pending)
      fun result => ∀ scanned, result = some scanned → scanned.1.IsAlphabet ∧ scanned.2.IsSymbolic := by
  induction tokens with
  | nil =>
      intro atStart set pending _ alphabet symbolic
      refine yields_pure fun scanned same => ?_
      cases same
      exact ⟨alphabet, symbolic⟩
  | cons token rest ih =>
      intro atStart set pending symbols alphabet symbolic
      rw [List.forall_mem_cons] at symbols
      have stops : Yields (pure none : Build (Option (IntervalSet × Pending)))
          fun result => ∀ scanned, result = some scanned → scanned.1.IsAlphabet ∧ scanned.2.IsSymbolic :=
        yields_pure fun _ same => by cases same
      cases token with
      | invalid text => exact yields_then fun _ => stops
      | property more =>
          simp only [scanTokens]
          split
          · exact yields_then fun _ => stops
          · exact (yields_applyPending alphabet symbolic).bind fun _ one => ih symbols.2 one symbols.1
      | codePoint code =>
          exact (yields_takeCodePoint alphabet symbolic (Int.le_trans (by decide) (Int.natCast_nonneg code))).bind
            fun _ taken => ih symbols.2 taken.1 taken.2
      | character character =>
          simp only [scanTokens]
          split
          · cases pending with
            | nothing => exact ih symbols.2 alphabet trivial
            | codePoint code opens => exact ih symbols.2 alphabet symbolic
            | property more => exact yields_then fun _ => stops
          · exact (yields_takeCodePoint alphabet symbolic
              (Int.le_trans (by decide) (Int.natCast_nonneg character.toNat))).bind
                fun _ taken => ih symbols.2 taken.1 taken.2

theorem yields_charSet (text : String) : Yields (charSet plan text position) IntervalSet.IsAlphabet := by
  unfold charSet
  have nothing : Pending.nothing.IsSymbolic := trivial
  refine (yields_scanTokens _ (isSymbolic_charSetTokens _) IntervalSet.isAlphabet_empty nothing).bind
    fun scanned symbolic => ?_
  cases scanned with
  | none => exact yields_pure IntervalSet.isAlphabet_empty
  | some scanned =>
      obtain ⟨alphabet, pending⟩ := symbolic scanned rfl
      refine (yields_applyPending alphabet pending).bind fun set whole => ?_
      simp only
      split
      · exact yields_then fun _ => yields_pure whole
      · exact yields_pure whole

theorem le_rangeEnds {low high : String} {ends : Int × Int} (found : rangeEnds low high = some ends) :
    endOfInput ≤ ends.1 := by
  unfold rangeEnds at found
  repeat' split at found
  all_goals cases found
  exact Int.le_trans (by decide) (Int.natCast_nonneg _)

theorem yields_rangeEnds? (low high : String) : Yields (rangeEnds? plan low high position)
    fun result => ∀ ends, result = some ends → endOfInput ≤ ends.1 :=
  fun _ => meets_rangeEnds? fun _ _ _ _ same => le_rangeEnds same

theorem yields_addSetItem (alphabet : set.IsAlphabet) (item : Element) :
    Yields (addSetItem plan root position set item) IntervalSet.IsAlphabet := by
  obtain ⟨form, place⟩ := item
  cases form with
  | range low high =>
      refine (yields_rangeEnds? low high).bind fun found bounds => ?_
      cases found with
      | none => exact yields_pure alphabet
      | some ends => exact yields_addRange alphabet (bounds ends rfl)
  | charSet text => exact (yields_charSet text).bind fun _ more => yields_pure (alphabet.union more)
  | literal text =>
      simp only [addSetItem]
      split
      · exact yields_addRange alphabet (Int.le_trans (by decide) (Int.natCast_nonneg _))
      · exact yields_then fun _ => yields_pure alphabet
  | token name => exact yields_then fun _ => yields_pure alphabet
  | _ => exact fun before => meets_fail.mpr trivial

theorem yields_addSetItems (items : List Element) : ∀ {set : IntervalSet}, set.IsAlphabet →
    Yields (addSetItems plan root position set items) IntervalSet.IsAlphabet := by
  induction items with
  | nil => exact fun alphabet => yields_pure alphabet
  | cons item items ih => exact fun alphabet => (yields_addSetItem alphabet item).bind fun _ more => ih more

end Characters

end Build

/-- What the label matches are symbols; those of an inverted set come from the vocabulary. -/
def Label.IsSymbolic : Label → Prop
  | .atom symbol => endOfInput ≤ symbol
  | .range first _ => endOfInput ≤ first
  | .set symbols => symbols.IsAlphabet
  | _ => True

/-- All that is matched before the ends of rules are symbols. -/
def Network.IsSymbolic (network : Network) : Prop :=
  ∀ id state, network.state? id = some state → state.kind ≠ .ruleStop → ∀ transition ∈ state.transitions,
    transition.label.IsSymbolic

theorem Label.IsSymbolic.of_emits {label : Label} {vocabulary : IntervalSet} {action : Option LexerAction}
    {value : Int} (symbolic : label.IsSymbolic) (alphabet : vocabulary.IsAlphabet)
    (emits : label.Emits vocabulary action [.symbol value]) : endOfInput ≤ value := by
  cases label with
  | epsilon | predicate | precedence | action | call => cases emits
  | atom =>
      cases emits
      exact symbolic
  | range =>
      obtain ⟨_, lower, _, same⟩ := emits
      cases same
      exact Int.le_trans symbolic lower
  | set =>
      obtain ⟨_, member, same⟩ := emits
      cases same
      exact symbolic _ member
  | notSet =>
      obtain ⟨_, member, _, same⟩ := emits
      cases same
      exact alphabet _ member
  | wildcard =>
      obtain ⟨_, member, same⟩ := emits
      cases same
      exact alphabet _ member

theorem Label.isSymbolic_erase (label : Label) : label.erase.IsSymbolic ↔ label.IsSymbolic := by
  cases label <;> rfl

theorem isSymbolic_rangeLabel {first last : Int} (low : endOfInput ≤ first) : (rangeLabel first last).IsSymbolic := by
  unfold rangeLabel
  split <;> exact low

theorem Build.isSymbolic_rangeSymbol (plan : Plan) (index : Nat) {first last : Int} (low : endOfInput ≤ first) :
    (rangeSymbol plan index first last).IsSymbolic := by
  unfold rangeSymbol
  simp only []
  split
  · exact (IntervalSet.isAlphabet_ofRange (Unicode.le_toLower low)).insertRange (Unicode.le_toUpper low)
  · exact isSymbolic_rangeLabel low

theorem Build.isSymbolic_lexerSetLabel {set : IntervalSet} (alphabet : set.IsAlphabet) (inverted : Bool) :
    (lexerSetLabel set inverted).IsSymbolic := by
  unfold lexerSetLabel
  split
  · trivial
  · split
    · rename_i interval same
      exact isSymbolic_rangeLabel (alphabet.first_le (same ▸ List.mem_singleton.mpr rfl))
    · exact alphabet

theorem Grammar.le_tokenType (grammar : Grammar) (name : String) : endOfInput ≤ grammar.tokenType name := by
  unfold tokenType
  split
  · exact Int.le_refl _
  · split
    · simp only [endOfInput, minUserTokenType]
      omega
    · decide

theorem Build.isAlphabet_tokenSet (grammar : Grammar) (items : List Element) :
    (tokenSet grammar items).IsAlphabet := by
  have each : ∀ set : IntervalSet, set.IsAlphabet →
      (items.foldl (fun set item => set.insert (grammar.tokenType item.text)) set).IsAlphabet := by
    induction items with
    | nil => exact fun _ alphabet => alphabet
    | cons item items ih => exact fun _ alphabet => ih _ (alphabet.insertRange (grammar.le_tokenType _))
  exact each _ IntervalSet.isAlphabet_empty

/-- What the element matches are symbols. -/
def Leaf.IsSymbolic : Leaf → Prop
  | .chain labels => ∀ label ∈ labels, label.IsSymbolic
  | .broken => True

namespace Plan

variable {plan : Plan} {index : Nat}

theorem isSymbolic_callLeaf? {name : String} {precedence : Option Int} {leaf : Leaf}
    (found : plan.callLeaf? name precedence = some leaf) : leaf.IsSymbolic := by
  obtain ⟨rule, _, rfl⟩ := Option.map_eq_some_iff.mp found
  exact List.forall_mem_singleton.mpr trivial

theorem isSymbolic_parserLeaf? {element : Element} {leaf : Leaf} (found : plan.parserLeaf? index element = some leaf) :
    leaf.IsSymbolic := by
  unfold parserLeaf? at found
  split at found
  · exact Option.some.inj found ▸ List.forall_mem_singleton.mpr (plan.grammar.le_tokenType _)
  · exact isSymbolic_callLeaf? found
  · exact Option.some.inj found ▸ List.forall_mem_singleton.mpr (plan.grammar.le_tokenType _)
  · cases found
  · exact Option.some.inj found ▸ List.forall_mem_singleton.mpr (plan.grammar.le_tokenType _)
  · rename_i items inverted _
    refine Option.some.inj found ▸ List.forall_mem_singleton.mpr ?_
    cases inverted with
    | true => trivial
    | false => exact Build.isAlphabet_tokenSet plan.grammar items
  · exact Option.some.inj found ▸ List.forall_mem_singleton.mpr trivial
  · exact Option.some.inj found ▸ List.forall_mem_singleton.mpr trivial
  · exact Option.some.inj found ▸ List.forall_mem_singleton.mpr trivial
  · exact Option.some.inj found ▸ List.forall_mem_singleton.mpr trivial
  · cases found

theorem isSymbolic_lexerLeaf? {element : Element} {leaf : Leaf} (found : plan.lexerLeaf? index element = some leaf) :
    leaf.IsSymbolic := by
  unfold lexerLeaf? at found
  split at found
  · split at found
    · exact Option.some.inj found ▸ List.forall_mem_singleton.mpr (Int.le_refl _)
    · exact isSymbolic_callLeaf? found
  · refine Option.some.inj found ▸ List.forall_mem_map.mpr fun character _ => ?_
    exact Build.isSymbolic_rangeSymbol plan index (Int.le_trans (by decide) (Int.natCast_nonneg _))
  · obtain ⟨set, answered, rfl⟩ := Option.map_eq_some_iff.mp found
    exact List.forall_mem_singleton.mpr ((Build.yields_charSet _).answer answered)
  · split at found
    · rename_i low high ends
      refine Option.some.inj found ▸ List.forall_mem_singleton.mpr (Build.isSymbolic_rangeSymbol plan index ?_)
      exact Build.le_rangeEnds ends
    · exact Option.some.inj found ▸ trivial
  · obtain ⟨set, answered, rfl⟩ := Option.map_eq_some_iff.mp found
    have alphabet := (Build.yields_addSetItems _ IntervalSet.isAlphabet_empty).answer answered
    exact List.forall_mem_singleton.mpr (Build.isSymbolic_lexerSetLabel alphabet _)
  · exact isSymbolic_parserLeaf? found

theorem isSymbolic_leaf? {element : Element} {leaf : Leaf} (found : plan.leaf? index element = some leaf) :
    leaf.IsSymbolic := by
  unfold leaf? at found
  split at found
  · exact isSymbolic_parserLeaf? found
  · exact isSymbolic_lexerLeaf? found

/-- A command is an action or nothing. -/
theorem isSymbolic_commandLabel? {written : Command} {label : Label}
    (found : plan.commandLabel? index written = some label) : label.IsSymbolic := by
  have code : ∀ text, (codeLabel index text).IsSymbolic := by
    intro text
    unfold codeLabel
    split <;> trivial
  have template : ∀ template, (templateLabel index written template).IsSymbolic := by
    intro template
    unfold templateLabel
    split
    · trivial
    · trivial
    · exact code _
  unfold commandLabel? at found
  repeat' split at found
  · cases found
  · obtain ⟨action, _, rfl⟩ := Option.map_eq_some_iff.mp found
    split <;> trivial
  · exact Option.some.inj found ▸ template _
  · exact Option.some.inj found ▸ trivial

theorem isSymbolic_marks {labels : List Label} (symbolic : ∀ label ∈ labels, label.IsSymbolic) :
    ∀ label ∈ marks labels, label.IsSymbolic := by
  intro label member
  obtain ⟨old, listed, rfl⟩ := List.mem_map.mp (List.mem_of_mem_filter member)
  exact old.isSymbolic_erase.mpr (symbolic old listed)

/-- What the elements of a rule match are symbols. -/
theorem isSymbolic_ruleLabels {rule : Rule} : ∀ label ∈ plan.ruleLabels index rule, label.IsSymbolic := by
  intro label member
  rcases mem_alternativeLabels member with ⟨element, _, leaf, found, listed⟩ | ⟨command, listed⟩
  · have symbolic := isSymbolic_leaf? found
    cases leaf with
    | chain labels => exact isSymbolic_marks symbolic label listed
    | broken => cases listed
  · exact isSymbolic_marks (fun _ known => isSymbolic_commandLabel? (Option.mem_toList.mp known)) label listed

/-- Before the ends of the rules, all that a network of the plan matches are symbols. -/
theorem Makes.isSymbolic {network : Network} {others : Heap} {parts : List RulePart}
    (makes : plan.Makes network others parts) : network.IsSymbolic := by
  intro id state found inner transition leaves
  rw [← Label.isSymbolic_erase]
  rcases makes.mem_ruleLabels found inner leaves with silent | ⟨index, rule, _, _, member⟩
  · rw [silent]
    trivial
  · exact isSymbolic_ruleLabels _ member

end Plan

end GrammarNetwork
