import Mathlib.Data.List.Nodup
import GrammarNetwork.Construction.Complete
import GrammarNetwork.Proofs.Occurrences

/-! Drafts of grammars. In the grammar that is built from a draft every rule has its own name, and every
reference leads to a rule. -/

namespace GrammarNetwork

/-- The grammar of a draft, its network and what was reported, unless something fails. -/
def Draft.network? (draft : Draft) : Option (Grammar × Network × Journal) :=
  match draft.build with
  | .ok grammar =>
      match (Plan.ofGrammar grammar).run {} with
      | .ok network after => some (grammar, network, after.journal)
      | .error _ _ => none
  | .error _ => none

theorem Draft.build_of_network? {draft : Draft} {built : Grammar × Network × Journal}
    (found : draft.network? = some built) : draft.build = .ok built.1 := by
  unfold Draft.network? at found
  split at found
  · rename_i grammar made
    split at found
    · cases found
      exact made
    · cases found
  · cases found

/-- What an element refers to. -/
inductive Reference where
  | rule (name : String)
  | token (name : String)
deriving DecidableEq, Repr

def Element.reference? (element : Element) : Option Reference :=
  match element.form with
  | .rule name _ => some (.rule name)
  | .token name => some (.token name)
  | _ => none

def Rule.references (rule : Rule) : List Reference :=
  rule.elements.filterMap Element.reference?

/-- The rules of a grammar whose draft has been checked. -/
structure Grammar.Checked (grammar : Grammar) : Prop where
  names : (grammar.rules.toList.map Rule.name).Nodup
  rules : ∀ rule ∈ grammar.rules, ∀ name, .rule name ∈ rule.references →
    (grammar.ruleIndex? name).isSome = true
  tokens : grammar.kind = .lexer → ∀ rule ∈ grammar.rules, ∀ name, .token name ∈ rule.references →
    name = "EOF" ∨ (grammar.ruleIndex? name).isSome = true

section Numbering

variable (numberActions : Bool)

-- Numbers change actions and predicates, and these refer to nothing.
mutual

theorem references_numberElement (numbering : Numbering) : ∀ (element : Element),
    ((numberElement numberActions element).run numbering).1.parts.filterMap Element.reference? =
      element.parts.filterMap Element.reference?
  | ⟨.action code index, position⟩ => by
      cases numberActions <;> rfl
  | ⟨.predicate code index precedence, position⟩ => rfl
  | ⟨.set items inverted, position⟩ => rfl
  | ⟨.block ⟨alternatives, suffix⟩, position⟩ => by
      have inner := references_numberAlternatives numbering alternatives
      simp only [Element.parts, List.filterMap_append, ← inner]
      exact List.filterMap_append
  | ⟨.token name, position⟩ => rfl
  | ⟨.rule name precedence, position⟩ => rfl
  | ⟨.literal text, position⟩ => rfl
  | ⟨.charSet text, position⟩ => rfl
  | ⟨.range first last, position⟩ => rfl
  | ⟨.wildcard, position⟩ => rfl

theorem references_numberElements (numbering : Numbering) : ∀ (elements : List Element),
    (listParts ((numberElements numberActions elements).run numbering).1).filterMap Element.reference? =
      (listParts elements).filterMap Element.reference?
  | [] => rfl
  | first :: rest => by
      have front := references_numberElement numbering first
      have back := references_numberElements ((numberElement numberActions first).run numbering).2 rest
      simp only [listParts, List.filterMap_append, ← front, ← back]
      exact List.filterMap_append

theorem references_numberAlternatives (numbering : Numbering) : ∀ (alternatives : List Alternative),
    (alternativeParts ((numberAlternatives numberActions alternatives).run numbering).1).filterMap
        Element.reference? = (alternativeParts alternatives).filterMap Element.reference?
  | [] => rfl
  | ⟨elements, commands⟩ :: rest => by
      have front := references_numberElements numbering elements
      have back := references_numberAlternatives ((numberElements numberActions elements).run numbering).2 rest
      simp only [alternativeParts, List.filterMap_append, ← front, ← back]
      exact List.filterMap_append

end

theorem Draft.names_numberRules (numbering : Numbering) : ∀ (rules : List Rule),
    ((numberRules numberActions rules).run numbering).1.map Rule.name = rules.map Rule.name
  | [] => rfl
  | rule :: rest => congrArg (rule.name :: ·) (names_numberRules _ rest)

theorem Draft.references_numberRules (numbering : Numbering) : ∀ (rules : List Rule),
    ((numberRules numberActions rules).run numbering).1.map Rule.references = rules.map Rule.references
  | [] => rfl
  | rule :: rest =>
      congrArg₂ List.cons (references_numberAlternatives numberActions numbering rule.alternatives)
        (references_numberRules _ rest)

end Numbering

mutual

/-- The elements outside the sets are among those that the checks look at. -/
theorem Element.mem_occurrences {inner : Element} {inSet : Bool} : ∀ {element : Element}, inner ∈ element.parts →
    (inner = element ∧ ⟨inner, inSet⟩ ∈ elementOccurrences inSet element) ∨
      ⟨inner, false⟩ ∈ elementOccurrences inSet element
  | ⟨.block ⟨alternatives, suffix⟩, position⟩, listed => by
      simp only [Element.parts, List.mem_append, List.mem_singleton] at listed
      rcases listed with inside | rfl
      · exact Or.inr (List.mem_cons_of_mem _ (alternatives_mem_occurrences inside))
      · exact Or.inl ⟨rfl, List.mem_cons_self⟩
  | ⟨.set items inverted, position⟩, listed => by
      obtain rfl := List.mem_singleton.mp listed
      exact Or.inl ⟨rfl, List.mem_cons_self⟩
  | ⟨.token name, position⟩, listed | ⟨.rule name precedence, position⟩, listed
  | ⟨.literal text, position⟩, listed | ⟨.charSet text, position⟩, listed | ⟨.range first last, position⟩, listed
  | ⟨.wildcard, position⟩, listed | ⟨.action code index, position⟩, listed
  | ⟨.predicate code index precedence, position⟩, listed => by
      obtain rfl := List.mem_singleton.mp listed
      exact Or.inl ⟨rfl, List.mem_cons_self⟩

theorem list_mem_occurrences {inner : Element} : ∀ {elements : List Element}, inner ∈ listParts elements →
    ⟨inner, false⟩ ∈ listOccurrences false elements
  | first :: rest, listed => by
      rcases List.mem_append.mp listed with here | later
      · exact List.mem_append_left _ ((Element.mem_occurrences here).elim And.right id)
      · exact List.mem_append_right _ (list_mem_occurrences later)

theorem alternatives_mem_occurrences {inner : Element} : ∀ {alternatives : List Alternative},
    inner ∈ alternativeParts alternatives → ⟨inner, false⟩ ∈ alternativeOccurrences alternatives
  | ⟨elements, _⟩ :: rest, listed => by
      rcases List.mem_append.mp listed with here | later
      · exact List.mem_append_left _ (list_mem_occurrences here)
      · exact List.mem_append_right _ (alternatives_mem_occurrences later)

end

theorem Rule.mem_occurrences {rule : Rule} {element : Element} (listed : element ∈ rule.elements) :
    ⟨element, false⟩ ∈ rule.occurrences :=
  alternatives_mem_occurrences listed

namespace Draft

/-- Rules that pass the checks have names of their own. -/
theorem checkRules_names {kind : GrammarKind} {rules : List Rule} {defined : List String}
    (checked : checkRules kind defined rules = .ok ()) :
    (rules.map Rule.name).Nodup ∧ ∀ rule ∈ rules, rule.name ∉ defined := by
  induction rules generalizing defined with
  | nil => simp
  | cons rule rest ih =>
      simp only [checkRules] at checked
      split at checked
      · cases checked
      rename_i fresh
      split at checked
      · cases checked
      split at checked
      · cases checked
      obtain ⟨unique, apart⟩ := ih checked
      refine ⟨List.nodup_cons.mpr ⟨?_, unique⟩, List.forall_mem_cons.mpr ⟨fresh, ?_⟩⟩
      · rw [List.mem_map]
        rintro ⟨other, listed, same⟩
        exact apart other listed (same ▸ List.mem_cons_self)
      · exact fun other listed found => apart other listed (List.mem_cons_of_mem _ found)

theorem mem_of_forM {α : Type} {check : α → Except GrammarError Unit} {list : List α}
    (checked : list.forM check = .ok ()) : ∀ value ∈ list, check value = .ok () := by
  induction list with
  | nil => simp
  | cons first rest ih =>
      simp only [List.forM] at checked
      cases here : check first with
      | error cause =>
          rw [here] at checked
          cases checked
      | ok value =>
          rw [here] at checked
          exact List.forall_mem_cons.mpr ⟨here, ih checked⟩

theorem checkReference_ok {draft : Draft} {referencedBy : String} {element : Element}
    (checked : draft.checkReference referencedBy ⟨element, false⟩ = .ok ()) (name : String) :
    (element.reference? = some (.rule name) → name ∈ draft.rules.map Rule.name) ∧
      (draft.kind = .lexer → element.reference? = some (.token name) →
        name = "EOF" ∨ name ∈ draft.rules.map Rule.name) := by
  have known : ∀ other : String, (draft.rules.any (·.name == other)) = true → other ∈ draft.rules.map Rule.name := by
    intro other found
    obtain ⟨rule, listed, same⟩ := List.any_eq_true.mp found
    exact List.mem_map.mpr ⟨rule, listed, eq_of_beq same⟩
  obtain ⟨form, position⟩ := element
  cases form with
  | rule other precedence =>
      simp only [checkReference] at checked
      split at checked
      · rename_i found
        refine ⟨?_, fun _ refers => by cases refers⟩
        rintro ⟨⟩
        exact known name found
      · cases checked
  | token other =>
      refine ⟨fun refers => (by cases refers), fun lexer refers => ?_⟩
      cases refers
      by_cases special : name = "EOF"
      · exact Or.inl special
      · simp only [checkReference, special, lexer, Bool.false_eq_true, or_self, if_false] at checked
        split at checked
        · rename_i found
          exact Or.inr (known name found)
        · cases checked
  | _ => exact ⟨fun refers => (by cases refers), fun _ refers => by cases refers⟩

end Draft

theorem Grammar.isSome_ruleIndex? {grammar : Grammar} {name : String} :
    (grammar.ruleIndex? name).isSome = true ↔ name ∈ grammar.rules.toList.map Rule.name := by
  rw [Grammar.ruleIndex?, Array.findIdx?_isSome, Array.any_eq_true', List.mem_map]
  simp

/-- The number of a rule is the only one that its name has. -/
theorem Grammar.Checked.ruleIndex?_eq {grammar : Grammar} (checked : grammar.Checked) {index : Nat} {rule : Rule}
    (found : grammar.rules[index]? = some rule) {name : String} :
    grammar.ruleIndex? name = some index ↔ rule.name = name := by
  obtain ⟨bound, rfl⟩ := Array.getElem?_eq_some_iff.mp found
  constructor
  · intro known
    simpa using (Array.findIdx?_eq_some_iff_getElem.mp known).2.1
  · rintro rfl
    refine Array.findIdx?_eq_some_iff_getElem.mpr ⟨bound, by simp, fun other less same => ?_⟩
    have apart := List.pairwise_iff_getElem.mp checked.names other index (by simp; omega) (by simpa using bound) less
    exact apart (by simpa using same)

/-- The grammar that a draft without mistakes comes to. -/
def Draft.grammar (draft : Draft) : Grammar :=
  let (rules, numbering) := (numberRules (draft.kind == .lexer) draft.rules).run {}
  { kind := draft.kind
    name := draft.name
    fileName := draft.fileName.getD (draft.name ++ ".g4")
    caseInsensitive := draft.caseInsensitive
    rules := rules.toArray
    tokens := draft.tokenTable
    channels := draft.channelTable
    modes := draft.modeTable
    actionCount := numbering.actions }

theorem Draft.build_eq_grammar {draft : Draft} {grammar : Grammar} (built : draft.build = .ok grammar) :
    checkRules draft.kind [] draft.rules = .ok () ∧ draft.checkReferences = .ok () ∧ grammar = draft.grammar := by
  unfold Draft.build at built
  by_cases empty : draft.rules.isEmpty = true
  · rw [if_pos empty] at built
    cases built
  rw [if_neg empty] at built
  cases rules : checkRules draft.kind [] draft.rules with
  | error cause =>
      rw [rules] at built
      cases built
  | ok _ =>
      cases references : draft.checkReferences with
      | error cause =>
          rw [rules, references] at built
          cases built
      | ok _ =>
          rw [rules, references] at built
          cases built
          exact ⟨rfl, rfl, rfl⟩

theorem Draft.build_eq_ok {draft : Draft} {grammar : Grammar} (built : draft.build = .ok grammar) :
    checkRules draft.kind [] draft.rules = .ok () ∧ draft.checkReferences = .ok () ∧ grammar.kind = draft.kind ∧
      grammar.rules.toList = ((numberRules (draft.kind == .lexer) draft.rules).run {}).1 := by
  obtain ⟨rules, references, rfl⟩ := build_eq_grammar built
  exact ⟨rules, references, rfl, rfl⟩

theorem Draft.checked_of_build {draft : Draft} {grammar : Grammar} (built : draft.build = .ok grammar) :
    grammar.Checked := by
  obtain ⟨rules, references, kind, same⟩ := build_eq_ok built
  have names : grammar.rules.toList.map Rule.name = draft.rules.map Rule.name := by
    rw [same, names_numberRules]
  -- A rule has the references of the rule that was checked.
  have checked : ∀ rule ∈ grammar.rules, ∀ reference ∈ rule.references, ∃ source ∈ draft.rules,
      ∃ origin ∈ source.elements, origin.reference? = some reference ∧
        draft.checkReference source.name ⟨origin, false⟩ = .ok () := by
    intro rule listed reference refers
    have kept : rule.references ∈ draft.rules.map Rule.references := by
      rw [← references_numberRules (draft.kind == .lexer) {} draft.rules, ← same]
      exact List.mem_map_of_mem (Array.mem_toList_iff.mpr listed)
    obtain ⟨source, known, origins⟩ := List.mem_map.mp kept
    rw [← origins] at refers
    obtain ⟨origin, member, found⟩ := List.mem_filterMap.mp refers
    exact ⟨source, known, origin, member, found,
      mem_of_forM (mem_of_forM references source known) _ (source.mem_occurrences member)⟩
  refine ⟨names ▸ (checkRules_names rules).1, fun rule listed name refers => ?_,
    fun lexer rule listed name refers => ?_⟩
  · obtain ⟨source, _, origin, _, found, passed⟩ := checked rule listed _ refers
    exact Grammar.isSome_ruleIndex?.mpr (names ▸ (checkReference_ok passed name).1 found)
  · obtain ⟨source, _, origin, _, found, passed⟩ := checked rule listed _ refers
    refine ((checkReference_ok passed name).2 (kind ▸ lexer) found).imp_right fun known => ?_
    exact Grammar.isSome_ruleIndex?.mpr (names ▸ known)

end GrammarNetwork
