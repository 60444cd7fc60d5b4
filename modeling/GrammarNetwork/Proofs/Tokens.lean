import GrammarNetwork.Proofs.Symbols
import GrammarNetwork.Proofs.Tables

/-! Tokens of parsers: what the rules mention as a token or a literal has a token type, apart from tokens that are
mentioned only in sets and that nothing defines. A transition without a type comes from one of these, or from an
element that is neither a token nor a literal. -/

namespace GrammarNetwork

/-- What stands in the alternatives at any depth, with a mark that says whether it is an item of a set. -/
inductive Occurs (alternatives : List Alternative) : Occurrence → Prop
  | element {alternative : Alternative} {element : Element} (listed : alternative ∈ alternatives)
      (member : element ∈ alternative.elements) : Occurs alternatives ⟨element, false⟩
  | item {items : List Element} {inverted : Bool} {position : Option Position} {inSet : Bool} {item : Element}
      (outer : Occurs alternatives ⟨⟨.set items inverted, position⟩, inSet⟩) (member : item ∈ items) :
      Occurs alternatives ⟨item, true⟩
  | inside {body : Block} {position : Option Position} {inSet : Bool} {alternative : Alternative} {element : Element}
      (outer : Occurs alternatives ⟨⟨.block body, position⟩, inSet⟩) (listed : alternative ∈ body.alternatives)
      (member : element ∈ alternative.elements) : Occurs alternatives ⟨element, false⟩

section Occurrences

variable {all : List Alternative} {occurrence : Occurrence}

-- What is listed stands somewhere.
mutual

theorem Occurs.of_element : ∀ {element : Element} {inSet : Bool}, Occurs all ⟨element, inSet⟩ →
    occurrence ∈ elementOccurrences inSet element → Occurs all occurrence
  | ⟨.set items inverted, position⟩, _, outer, member => by
      rcases List.mem_cons.mp member with rfl | inner
      · exact outer
      · exact Occurs.of_list (fun _ listed => .item outer listed) inner
  | ⟨.block ⟨alternatives, suffix⟩, position⟩, _, outer, member => by
      rcases List.mem_cons.mp member with rfl | inner
      · exact outer
      · exact Occurs.of_alternatives (fun _ listed _ present => .inside outer listed present) inner
  | ⟨.token _, _⟩, _, outer, member | ⟨.rule _ _, _⟩, _, outer, member | ⟨.literal _, _⟩, _, outer, member
  | ⟨.charSet _, _⟩, _, outer, member | ⟨.range _ _, _⟩, _, outer, member | ⟨.wildcard, _⟩, _, outer, member
  | ⟨.action _ _, _⟩, _, outer, member | ⟨.predicate _ _ _, _⟩, _, outer, member => by
      obtain rfl := List.mem_singleton.mp member
      exact outer

theorem Occurs.of_list : ∀ {elements : List Element} {inSet : Bool},
    (∀ element ∈ elements, Occurs all ⟨element, inSet⟩) → occurrence ∈ listOccurrences inSet elements →
    Occurs all occurrence
  | first :: rest, _, outer, member => by
      rw [List.forall_mem_cons] at outer
      rcases List.mem_append.mp member with here | later
      · exact Occurs.of_element outer.1 here
      · exact Occurs.of_list outer.2 later

theorem Occurs.of_alternatives : ∀ {alternatives : List Alternative},
    (∀ alternative ∈ alternatives, ∀ element ∈ alternative.elements, Occurs all ⟨element, false⟩) →
    occurrence ∈ alternativeOccurrences alternatives → Occurs all occurrence
  | ⟨elements, _⟩ :: rest, outer, member => by
      rw [List.forall_mem_cons] at outer
      rcases List.mem_append.mp member with here | later
      · exact Occurs.of_list outer.1 here
      · exact Occurs.of_alternatives outer.2 later

end

theorem self_mem_elementOccurrences (element : Element) (inSet : Bool) :
    ⟨element, inSet⟩ ∈ elementOccurrences inSet element := by
  obtain ⟨form, position⟩ := element
  cases form with
  | block body =>
      obtain ⟨alternatives, suffix⟩ := body
      exact List.mem_cons_self
  | _ => exact List.mem_cons_self

theorem mem_listOccurrences {element : Element} {inSet : Bool} : ∀ {elements : List Element}, element ∈ elements →
    elementOccurrences inSet element ⊆ listOccurrences inSet elements
  | first :: rest, member => by
      rcases List.mem_cons.mp member with rfl | later
      · exact List.subset_append_left _ _
      · exact List.subset_append_of_subset_right _ (mem_listOccurrences later)

theorem mem_alternativeOccurrences {alternative : Alternative} {element : Element}
    (present : element ∈ alternative.elements) : ∀ {alternatives : List Alternative}, alternative ∈ alternatives →
    elementOccurrences false element ⊆ alternativeOccurrences alternatives
  | ⟨elements, _⟩ :: rest, member => by
      rcases List.mem_cons.mp member with rfl | later
      · exact List.subset_append_of_subset_left _ (mem_listOccurrences present)
      · exact List.subset_append_of_subset_right _ (mem_alternativeOccurrences present later)

-- What is inside something that is listed is listed as well.
mutual

theorem elementOccurrences_subset : ∀ {element : Element} {inSet : Bool},
    occurrence ∈ elementOccurrences inSet element →
    elementOccurrences occurrence.inSet occurrence.element ⊆ elementOccurrences inSet element
  | ⟨.set items inverted, position⟩, inSet, member => by
      rcases List.mem_cons.mp member with rfl | inner
      · exact List.Subset.refl _
      · exact List.subset_cons_of_subset _ (listOccurrences_subset inner)
  | ⟨.block ⟨alternatives, suffix⟩, position⟩, inSet, member => by
      rcases List.mem_cons.mp member with rfl | inner
      · exact List.Subset.refl _
      · exact List.subset_cons_of_subset _ (alternativeOccurrences_subset inner)
  | ⟨.token _, _⟩, _, member | ⟨.rule _ _, _⟩, _, member | ⟨.literal _, _⟩, _, member
  | ⟨.charSet _, _⟩, _, member | ⟨.range _ _, _⟩, _, member | ⟨.wildcard, _⟩, _, member
  | ⟨.action _ _, _⟩, _, member | ⟨.predicate _ _ _, _⟩, _, member => by
      obtain rfl := List.mem_singleton.mp member
      exact List.Subset.refl _

theorem listOccurrences_subset : ∀ {elements : List Element} {inSet : Bool},
    occurrence ∈ listOccurrences inSet elements →
    elementOccurrences occurrence.inSet occurrence.element ⊆ listOccurrences inSet elements
  | first :: rest, inSet, member => by
      rcases List.mem_append.mp member with here | later
      · exact List.subset_append_of_subset_left _ (elementOccurrences_subset here)
      · exact List.subset_append_of_subset_right _ (listOccurrences_subset later)

theorem alternativeOccurrences_subset : ∀ {alternatives : List Alternative},
    occurrence ∈ alternativeOccurrences alternatives →
    elementOccurrences occurrence.inSet occurrence.element ⊆ alternativeOccurrences alternatives
  | ⟨elements, _⟩ :: rest, member => by
      rcases List.mem_append.mp member with here | later
      · exact List.subset_append_of_subset_left _ (listOccurrences_subset here)
      · exact List.subset_append_of_subset_right _ (alternativeOccurrences_subset later)

end

/-- The checks look at all that stands in a rule, and at nothing else. -/
theorem mem_occurrences_iff {rule : Rule} : occurrence ∈ rule.occurrences ↔ Occurs rule.alternatives occurrence := by
  constructor
  · exact Occurs.of_alternatives fun _ listed _ present => .element listed present
  · intro occurs
    induction occurs with
    | element listed present => exact mem_alternativeOccurrences present listed (self_mem_elementOccurrences _ _)
    | @item items inverted position inSet item _ present outer =>
        refine alternativeOccurrences_subset outer (List.mem_cons_of_mem _ ?_)
        exact mem_listOccurrences present (self_mem_elementOccurrences _ _)
    | @inside body position inSet alternative element _ listed present outer =>
        obtain ⟨alternatives, suffix⟩ := body
        refine alternativeOccurrences_subset outer (List.mem_cons_of_mem _ ?_)
        exact mem_alternativeOccurrences present listed (self_mem_elementOccurrences _ _)

end Occurrences

/-- What an element names that a parser has a token type for. -/
inductive Mention where
  | token (name : String)
  | literal (text : String)
deriving DecidableEq

def Mention.name : Mention → String
  | .token name => name
  | .literal text => text

def Element.mention? (element : Element) : Option Mention :=
  match element.form with
  | .token name => some (.token name)
  | .literal text => some (.literal text)
  | _ => none

theorem Element.text_of_mention? {element : Element} {mention : Mention} (names : element.mention? = some mention) :
    element.text = mention.name := by
  obtain ⟨form, position⟩ := element
  cases form <;> cases names <;> rfl

namespace Occurrence

/-- What the element names, with whether it is an item of a set. -/
def mention? (occurrence : Occurrence) : Option (Mention × Bool) :=
  occurrence.element.mention?.map fun mention => (mention, occurrence.inSet)

end Occurrence

namespace Rule

/-- The rule names the token or literal somewhere; `inSet` says whether this is an item of a set. -/
def Mentions (rule : Rule) (mention : Mention) (inSet : Bool) : Prop :=
  ∃ element, Occurs rule.alternatives ⟨element, inSet⟩ ∧ element.mention? = some mention

/-- All that the rule names, in the order of the text. -/
def mentions (rule : Rule) : List (Mention × Bool) :=
  rule.occurrences.filterMap Occurrence.mention?

theorem mem_mentions {rule : Rule} {mention : Mention} {inSet : Bool} :
    (mention, inSet) ∈ rule.mentions ↔ rule.Mentions mention inSet := by
  simp only [mentions, List.mem_filterMap, mem_occurrences_iff, Occurrence.mention?, Option.map_eq_some_iff,
    Prod.mk.injEq]
  constructor
  · rintro ⟨⟨element, _⟩, occurs, _, names, rfl, rfl⟩
    exact ⟨element, occurs, names⟩
  · rintro ⟨element, occurs, names⟩
    exact ⟨⟨element, inSet⟩, occurs, mention, names, rfl, rfl⟩

end Rule

section Numbering

variable (numberActions : Bool)

-- Numbers change actions and predicates, and these name nothing.
mutual

theorem mentions_numberElement (numbering : Numbering) (inSet : Bool) : ∀ (element : Element),
    (elementOccurrences inSet ((numberElement numberActions element).run numbering).1).filterMap
        Occurrence.mention? = (elementOccurrences inSet element).filterMap Occurrence.mention?
  | ⟨.action code index, position⟩ => by
      cases numberActions <;> rfl
  | ⟨.predicate code index precedence, position⟩ => rfl
  | ⟨.set items inverted, position⟩ => mentions_numberElements numbering true items
  | ⟨.block ⟨alternatives, suffix⟩, position⟩ => mentions_numberAlternatives numbering alternatives
  | ⟨.token name, position⟩ => rfl
  | ⟨.rule name precedence, position⟩ => rfl
  | ⟨.literal text, position⟩ => rfl
  | ⟨.charSet text, position⟩ => rfl
  | ⟨.range first last, position⟩ => rfl
  | ⟨.wildcard, position⟩ => rfl

theorem mentions_numberElements (numbering : Numbering) (inSet : Bool) : ∀ (elements : List Element),
    (listOccurrences inSet ((numberElements numberActions elements).run numbering).1).filterMap Occurrence.mention? =
      (listOccurrences inSet elements).filterMap Occurrence.mention?
  | [] => rfl
  | first :: rest => by
      have front := mentions_numberElement numbering inSet first
      have back := mentions_numberElements ((numberElement numberActions first).run numbering).2 inSet rest
      simp only [listOccurrences, List.filterMap_append, ← front, ← back]
      exact List.filterMap_append

theorem mentions_numberAlternatives (numbering : Numbering) : ∀ (alternatives : List Alternative),
    (alternativeOccurrences ((numberAlternatives numberActions alternatives).run numbering).1).filterMap
        Occurrence.mention? = (alternativeOccurrences alternatives).filterMap Occurrence.mention?
  | [] => rfl
  | ⟨elements, commands⟩ :: rest => by
      have front := mentions_numberElements numbering false elements
      have back := mentions_numberAlternatives ((numberElements numberActions elements).run numbering).2 rest
      simp only [alternativeOccurrences, List.filterMap_append, ← front, ← back]
      exact List.filterMap_append

end

theorem Draft.mentions_numberRules (numbering : Numbering) : ∀ (rules : List Rule),
    ((numberRules numberActions rules).run numbering).1.map Rule.mentions = rules.map Rule.mentions
  | [] => rfl
  | rule :: rest =>
      congrArg₂ List.cons (mentions_numberAlternatives numberActions numbering rule.alternatives)
        (mentions_numberRules _ rest)

end Numbering

namespace Draft

/-- What the mention of a token or a literal makes a token. -/
theorem definedToken?_eq_some {draft : Draft} {element : Element} {name : String} :
    draft.definedToken? element = some name ↔
      (element.mention? = some (.token name) ∧ draft.implicitTokens = true) ∨
        element.mention? = some (.literal name) := by
  obtain ⟨form, position⟩ := element
  cases form <;> simp [definedToken?, Element.mention?, and_comm]

/-- The tokens of a parser: the declared ones, the literals, and what is named as a token if that is enough. -/
theorem mem_tokenTable {draft : Draft} (parser : draft.kind = .parser) {name : String} :
    name ∈ draft.tokenTable ↔ name ≠ "EOF" ∧ (name ∈ draft.tokens ∨ ∃ rule ∈ draft.rules, ∃ inSet,
      (rule.Mentions (.token name) inSet ∧ draft.implicitTokens = true) ∨ rule.Mentions (.literal name) inSet) := by
  have candidates : name ∈ draft.tokenCandidates ↔ name ∈ draft.tokens ∨ ∃ rule ∈ draft.rules, ∃ inSet,
      (rule.Mentions (.token name) inSet ∧ draft.implicitTokens = true) ∨ rule.Mentions (.literal name) inSet := by
    simp only [tokenCandidates, parser, List.mem_append, List.mem_flatMap, List.mem_filterMap, mem_occurrences_iff,
      definedToken?_eq_some, Rule.Mentions]
    refine or_congr_right (exists_congr fun rule => and_congr_right fun _ => ⟨?_, ?_⟩)
    · rintro ⟨⟨element, inSet⟩, occurs, ⟨names, implicit⟩ | names⟩
      · exact ⟨inSet, Or.inl ⟨⟨element, occurs, names⟩, implicit⟩⟩
      · exact ⟨inSet, Or.inr ⟨element, occurs, names⟩⟩
    · rintro ⟨inSet, ⟨⟨element, occurs, names⟩, implicit⟩ | ⟨element, occurs, names⟩⟩
      · exact ⟨⟨element, inSet⟩, occurs, Or.inl ⟨names, implicit⟩⟩
      · exact ⟨⟨element, inSet⟩, occurs, Or.inr names⟩
  rw [tokenTable, mem_foldl_addNew, List.mem_filter, candidates]
  simp [and_comm]

/-- A token of a parser that has been checked is in a set, or there is a reason why it has a type. -/
theorem checkReference_token {draft : Draft} (parser : draft.kind = .parser) {referencedBy name : String}
    {element : Element} {inSet : Bool} (names : element.mention? = some (.token name))
    (checked : draft.checkReference referencedBy ⟨element, inSet⟩ = .ok ()) :
    name = "EOF" ∨ inSet = true ∨ draft.implicitTokens = true ∨ name ∈ draft.tokens := by
  obtain ⟨form, position⟩ := element
  cases form with
  | token other =>
      cases names
      simp only [checkReference, parser] at checked
      split at checked
      · rename_i free
        exact free.imp_right Or.inl
      · split at checked
        · rename_i known
          exact Or.inr (Or.inr known)
        · cases checked
  | _ => cases names

/-- The token is named in a set, and nothing defines it: names of tokens do not, it is not declared, and no literal
has its text. -/
def Overlooks (draft : Draft) (mention : Mention) (inSet : Bool) : Prop :=
  inSet = true ∧ draft.implicitTokens = false ∧ ∃ name, mention = .token name ∧ name ≠ "EOF" ∧ name ∉ draft.tokens ∧
    ∀ rule ∈ draft.rules, ∀ place, ¬rule.Mentions (.literal name) place

/-- A token of a parser that has been checked is in the table unless it is overlooked. -/
theorem mem_tokenTable_iff {draft : Draft} (parser : draft.kind = .parser) (references : draft.checkReferences = .ok ())
    {rule : Rule} (listed : rule ∈ draft.rules) {name : String} {inSet : Bool}
    (mentions : rule.Mentions (.token name) inSet) :
    name = "EOF" ∨ name ∈ draft.tokenTable ↔ ¬draft.Overlooks (.token name) inSet := by
  constructor
  · rintro known ⟨_, explicit, _, ⟨⟩, special, undeclared, unwritten⟩
    obtain ⟨_, declared | ⟨other, inside, place, ⟨_, implicit⟩ | literal⟩⟩ :=
      (mem_tokenTable parser).mp (known.resolve_left special)
    · exact undeclared declared
    · rw [explicit] at implicit
      cases implicit
    · exact unwritten other inside place literal
  · intro noticed
    by_contra unknown
    rw [not_or, mem_tokenTable parser] at unknown
    obtain ⟨special, absent⟩ := unknown
    have nowhere := fun reason => absent ⟨special, reason⟩
    have undeclared : name ∉ draft.tokens := fun declared => nowhere (Or.inl declared)
    have explicit : ¬draft.implicitTokens = true :=
      fun implicit => nowhere (Or.inr ⟨rule, listed, inSet, Or.inl ⟨mentions, implicit⟩⟩)
    obtain ⟨element, occurs, names⟩ := mentions
    have checked := checkReference_token parser names
      (mem_of_forM (mem_of_forM references rule listed) _ (mem_occurrences_iff.mpr occurs))
    refine noticed ⟨?_, Bool.eq_false_iff.mpr explicit, name, rfl, special, undeclared, ?_⟩
    · exact (checked.resolve_left special).resolve_right fun defined => defined.elim explicit undeclared
    · exact fun other inside place literal => nowhere (Or.inr ⟨other, inside, place, Or.inr literal⟩)

end Draft

namespace Grammar

variable {grammar : Grammar} {name : String}

/-- The name has the type of the end of the input or of a token of the grammar. -/
def Resolves (grammar : Grammar) (name : String) : Prop :=
  (name = "EOF" ∧ grammar.tokenType name = endOfInput) ∨
    (minUserTokenType ≤ grammar.tokenType name ∧ grammar.tokenType name ≤ grammar.maxTokenType)

theorem resolves_of_mem (known : name = "EOF" ∨ name ∈ grammar.tokens) : grammar.Resolves name := by
  by_cases special : name = "EOF"
  · exact Or.inl ⟨special, by rw [tokenType, if_pos special]⟩
  refine Or.inr ?_
  rw [tokenType, if_neg special]
  cases found : grammar.tokens.idxOf? name with
  | none => exact absurd (known.resolve_left special) (List.idxOf?_eq_none_iff.mp found)
  | some index =>
      have bound : index < grammar.tokens.length := (List.findIdx?_eq_some_iff_getElem.mp found).1
      simp only [maxTokenType, minUserTokenType]
      omega

theorem Resolves.tokenType_ne (resolves : grammar.Resolves name) : grammar.tokenType name ≠ invalidType := by
  simp only [Resolves, endOfInput, minUserTokenType] at resolves
  simp only [invalidType]
  omega

end Grammar

/-- What a mention of a parser comes to: it has no type if it is overlooked, and one if not. -/
theorem Draft.mention_cases {draft : Draft} (parser : draft.kind = .parser) {grammar : Grammar}
    (built : draft.build = .ok grammar) {rule : Rule} (listed : rule ∈ grammar.rules) {mention : Mention} {inSet : Bool}
    (mentions : rule.Mentions mention inSet) :
    (draft.Overlooks mention inSet ∧ grammar.tokenType mention.name = invalidType) ∨
      (¬draft.Overlooks mention inSet ∧ grammar.Resolves mention.name) := by
  obtain ⟨_, references, rfl⟩ := build_eq_grammar built
  obtain ⟨source, known, found⟩ : ∃ source ∈ draft.rules, source.Mentions mention inSet := by
    have kept : rule.mentions ∈ draft.rules.map Rule.mentions := by
      rw [← mentions_numberRules (draft.kind == .lexer) {} draft.rules]
      exact List.mem_map_of_mem (Array.mem_toList_iff.mpr listed)
    obtain ⟨source, known, same⟩ := List.mem_map.mp kept
    exact ⟨source, known, Rule.mem_mentions.mp (same ▸ Rule.mem_mentions.mpr mentions)⟩
  cases mention with
  | literal text =>
      refine Or.inr ⟨fun overlooks => (by obtain ⟨_, _, name, same, _⟩ := overlooks; cases same), ?_⟩
      refine Grammar.resolves_of_mem ((Classical.em (text = "EOF")).imp_right fun special => ?_)
      exact (mem_tokenTable parser).mpr ⟨special, Or.inr ⟨source, known, inSet, Or.inr found⟩⟩
  | token name =>
      have resolved := mem_tokenTable_iff parser references known found
      by_cases overlooks : draft.Overlooks (.token name) inSet
      · have absent := fun present => resolved.mp present overlooks
        exact Or.inl ⟨overlooks, Grammar.tokenType_of_notMem (fun special => absent (Or.inl special))
          fun present => absent (Or.inr present)⟩
      · exact Or.inr ⟨overlooks, Grammar.resolves_of_mem (resolved.mpr overlooks)⟩

/-- The token type stands on the label. -/
def Label.Names (type : Int) : Label → Prop
  | .atom symbol => symbol = type
  | .set symbols | .notSet symbols => symbols.contains type = true
  | _ => False

theorem Label.names_erase {type : Int} (label : Label) : label.erase.Names type ↔ label.Names type := by
  cases label <;> rfl

namespace Element

/-- What a parser looks up for the transition of an element: the elements whose token types stand on it, each with its
name there. The name of a range is its first end, unless it is in a set. -/
def lookups (element : Element) : List (Element × String) :=
  match element.form with
  | .token name => [(element, name)]
  | .literal text => [(element, text)]
  | .range first _ => [(element, first)]
  | .set items _ => items.map fun item => (item, item.text)
  | _ => []

end Element

theorem Build.contains_tokenSet {grammar : Grammar} {items : List Element} {type : Int} :
    (tokenSet grammar items).contains type = true ↔ ∃ item ∈ items, grammar.tokenType item.text = type := by
  have each : ∀ set : IntervalSet,
      (items.foldl (fun set item => set.insert (grammar.tokenType item.text)) set).contains type = true ↔
        set.contains type = true ∨ ∃ item ∈ items, grammar.tokenType item.text = type := by
    induction items with
    | nil => simp
    | cons item items ih =>
        intro set
        rw [List.foldl_cons, ih, IntervalSet.contains_insert, List.exists_mem_cons_iff, eq_comm, or_assoc, or_left_comm]
  rw [tokenSet, each, IntervalSet.contains_iff]
  simp [IntervalSet.empty]

namespace Plan

variable {plan : Plan} {index : Nat}

/-- The token types on the transition of an element are those of the names that are looked up. -/
theorem names_parserLeaf? {element : Element} {leaf : Leaf} (found : plan.parserLeaf? index element = some leaf)
    {label : Label} (listed : label ∈ leaf.labels) {type : Int} (names : label.Names type) :
    ∃ item name, (item, name) ∈ element.lookups ∧ plan.grammar.tokenType name = type := by
  have only : ∀ {one : Label}, some (.chain [one]) = some leaf → one.Names type := by
    rintro one ⟨⟩
    obtain ⟨old, member, rfl⟩ := List.mem_map.mp (List.mem_of_mem_filter listed)
    obtain rfl := List.mem_singleton.mp member
    exact old.names_erase.mp names
  obtain ⟨form, position⟩ := element
  cases form with
  | token | literal | range => exact ⟨_, _, List.mem_singleton_self _, only found⟩
  | set items inverted =>
      have member : (Build.tokenSet plan.grammar items).contains type = true := by
        cases inverted <;> exact only found
      obtain ⟨item, inside, same⟩ := Build.contains_tokenSet.mp member
      exact ⟨item, item.text, List.mem_map_of_mem inside, same⟩
  | rule name precedence =>
      obtain ⟨rule, _, made⟩ := Option.map_eq_some_iff.mp found
      exact (only (congrArg some made)).elim
  | predicate code number precedence => cases precedence <;> exact (only found).elim
  | wildcard | action => exact (only found).elim
  | charSet | block => cases found

end Plan

/-- What is looked up for an element of a rule stands in the rule as well, under its own name. -/
theorem Occurs.lookups {alternatives : List Alternative} {element item : Element} {name : String} {inSet : Bool}
    (occurs : Occurs alternatives ⟨element, inSet⟩) (listed : (item, name) ∈ element.lookups) :
    (∃ place, Occurs alternatives ⟨item, place⟩) ∧ ∀ mention, item.mention? = some mention → name = mention.name := by
  obtain ⟨form, position⟩ := element
  cases form with
  | token | literal | range =>
      cases List.mem_singleton.mp listed
      exact ⟨⟨inSet, occurs⟩, fun _ names => by cases names <;> rfl⟩
  | set items inverted =>
      obtain ⟨item, member, same⟩ := List.mem_map.mp listed
      cases same
      exact ⟨⟨true, .item occurs member⟩, fun _ names => Element.text_of_mention? names⟩
  | _ => cases listed

/-- Every token and every literal that a parser mentions has a type, apart from overlooked tokens; and where a
transition has no type, it has the label of an element of its rule that names an overlooked token, or something that is
neither a token nor a literal. -/
theorem Draft.run_tokenTypes (draft : Draft) (lookahead : Lookahead) (templates : Templates) (journal : Journal) :
    match draft.kind, draft.build with
    | .parser, .ok grammar =>
        (∀ rule ∈ grammar.rules, ∀ mention inSet, rule.Mentions mention inSet →
          (draft.Overlooks mention inSet ∧ grammar.tokenType mention.name = invalidType) ∨
            (¬draft.Overlooks mention inSet ∧ grammar.Resolves mention.name)) ∧
        let plan : Plan := { grammar, kind := .parser, lookahead, templates }
        match plan.run journal with
        | .error _ _ => True
        | .ok network _ => ∀ id state, network.state? id = some state → state.kind ≠ .ruleStop →
            ∀ transition ∈ state.transitions, transition.label.Names invalidType →
              ∃ index rule, state.rule = some index ∧ grammar.rules[index]? = some rule ∧
                ∃ element leaf, Occurs rule.alternatives ⟨element, false⟩ ∧ plan.leaf? index element = some leaf ∧
                  transition.label.erase ∈ leaf.labels ∧
                  ∃ item name, (item, name) ∈ element.lookups ∧ grammar.tokenType name = invalidType ∧
                    ∀ mention, item.mention? = some mention → draft.Overlooks mention true
    | _, _ => True := by
  split
  · rename_i grammar parser built
    refine ⟨fun rule listed mention inSet mentions => mention_cases parser built listed mentions, ?_⟩
    intro plan
    split
    · trivial
    rename_i network after ends
    obtain ⟨others, parts, makes, _⟩ := Plan.completes_of_run ends
    intro id state found inner transition leaves names
    rw [← Label.names_erase] at names
    rcases makes.mem_ruleLabels found inner leaves with silent | ⟨index, rule, own, listed, member⟩
    · rw [silent] at names
      cases names
    rcases Plan.mem_alternativeLabels member with ⟨element, inside, leaf, made, marked⟩ | ⟨command, marked⟩
    · have known : rule ∈ grammar.rules := Array.mem_of_getElem? listed
      have occurs : Occurs rule.alternatives ⟨element, false⟩ := mem_occurrences_iff.mp (rule.mem_occurrences inside)
      obtain ⟨item, name, member, untyped⟩ := Plan.names_parserLeaf? made marked names
      refine ⟨index, rule, own, listed, element, leaf, occurs, made, marked, item, name, member, untyped,
        fun mention found => ?_⟩
      obtain ⟨⟨place, stands⟩, called⟩ := occurs.lookups member
      rw [called mention found] at untyped
      rcases mention_cases parser built known ⟨item, stands, found⟩ with ⟨overlooks, _⟩ | ⟨_, resolves⟩
      · exact overlooks.1 ▸ overlooks
      · exact absurd untyped resolves.tokenType_ne
    · cases marked
  · trivial

/-- A rule with a set of one token, which is not declared although all tokens are to be. -/
def undeclaredInSet : Draft where
  kind := .parser
  name := "P"
  implicitTokens := false
  rules := [{
    name := "a"
    alternatives := [{ elements := [⟨.set [⟨.token "X", none⟩] false, none⟩] }] }]

-- The token passes the checks and has no type, and the transition for the set has none either.
set_option maxRecDepth 100000 in
theorem undeclaredInSet_unresolved :
    (undeclaredInSet.network?.map fun built =>
      (built.1.tokenType "X", built.1.maxTokenType, built.2.1.ruleLabels 0)) =
    some (invalidType, 0, [.set (.ofRange invalidType invalidType)]) := by
  decide +kernel

end GrammarNetwork
