import GrammarNetwork.Proofs.Drafts
import GrammarNetwork.Proofs.Networks

/-! Constructions that fail: what in the rules of a grammar makes the construction fail, and that nothing else
does. -/

namespace GrammarNetwork

/-- The element can be an item of a set in a lexer. -/
def Element.isSymbols (element : Element) : Bool :=
  match element.form with
  | .range _ _ | .charSet _ | .literal _ | .token _ => true
  | _ => false

namespace Rule

variable (rule : Rule)

/-- Some block of the rule, or its body, has nothing to choose from. -/
def HasEmptyBlock : Prop :=
  ∃ block ∈ rule.blocks, block.alternatives = []

def HasCommands : Prop :=
  ∃ block ∈ rule.blocks, ∃ alternative ∈ block.alternatives, alternative.commands ≠ []

def HasCharSet : Prop :=
  ∃ element ∈ rule.elements, ∃ text, element.form = .charSet text

/-- Some set of the rule has an item that does not stand for symbols. -/
def HasForeignItem : Prop :=
  ∃ element ∈ rule.elements, ∃ items inverted, element.form = .set items inverted ∧
    ∃ item ∈ items, item.isSymbols = false

end Rule

/-- The rule refers to a token that is no rule. -/
def Grammar.LacksToken (grammar : Grammar) (rule : Rule) : Prop :=
  ∃ name, .token name ∈ rule.references ∧ name ≠ "EOF" ∧ grammar.ruleIndex? name = none

/-- The plan has no network for the rule. In a grammar for a lexer no token is lacking, so that this is about
lexers for the tokens of a parser. -/
def Plan.Rejects (plan : Plan) (rule : Rule) : Prop :=
  match plan.kind with
  | .parser => rule.HasEmptyBlock ∨ rule.HasCharSet ∨ rule.HasCommands
  | .lexer => rule.HasEmptyBlock ∨ rule.HasForeignItem ∨
      plan.grammar.kind = .parser ∧ plan.grammar.LacksToken rule

section Faults

variable {plan : Plan} {failure : Failure}

/-- What is wrong with a block, with what is inside its alternatives left aside. -/
def Plan.blockFault (plan : Plan) (failure : Failure) (block : Block) : Prop :=
  block.alternatives = [] ∧ failure = .inconsistent .emptyBlock ∨
    ∃ alternative ∈ block.alternatives, alternative.commands ≠ [] ∧ failure ∈ plan.commandFaults

/-- What is wrong with an element, with what is inside it left aside. -/
def Plan.elementFault (plan : Plan) (failure : Failure) (element : Element) : Prop :=
  match element.block? with
  | some block => plan.blockFault failure block
  | none => failure ∈ plan.leafFaults element

mutual

/-- The faults of an element are those of the elements inside it. -/
theorem Plan.mem_elementFaults : ∀ (element : Element),
    failure ∈ plan.elementFaults element ↔ ∃ inner ∈ element.parts, plan.elementFault failure inner
  | ⟨.block ⟨alternatives, suffix⟩, position⟩ => by
      have empty : failure ∈ blockFaults alternatives ↔ alternatives = [] ∧ failure = .inconsistent .emptyBlock := by
        cases alternatives <;> simp [blockFaults]
      simp only [elementFaults, List.mem_append, mem_alternativeFaults alternatives, empty, Element.parts,
        or_and_right, exists_or, List.mem_singleton, exists_eq_left]
      exact or_assoc.trans (or_congr Iff.rfl or_comm)
  | ⟨.token name, position⟩ | ⟨.rule name precedence, position⟩ | ⟨.literal text, position⟩
  | ⟨.charSet text, position⟩ | ⟨.range first last, position⟩ | ⟨.set items inverted, position⟩
  | ⟨.wildcard, position⟩ | ⟨.action code index, position⟩ | ⟨.predicate code index precedence, position⟩ => by
      simp [elementFaults, Element.parts, elementFault, Element.block?]

theorem Plan.mem_listFaults : ∀ (elements : List Element),
    failure ∈ plan.listFaults elements ↔ ∃ inner ∈ listParts elements, plan.elementFault failure inner
  | [] => by simp [listFaults, listParts]
  | first :: rest => by
      simp only [listFaults, listParts, List.mem_append, mem_elementFaults first, mem_listFaults rest,
        or_and_right, exists_or]

theorem Plan.mem_alternativeFaults : ∀ (alternatives : List Alternative),
    failure ∈ plan.alternativeFaults alternatives ↔
      (∃ inner ∈ alternativeParts alternatives, plan.elementFault failure inner) ∨
        ∃ alternative ∈ alternatives, alternative.commands ≠ [] ∧ failure ∈ plan.commandFaults
  | [] => by simp [alternativeFaults, alternativeParts]
  | ⟨elements, commands⟩ :: rest => by
      have any : (failure ∈ commands.flatMap fun _ => plan.commandFaults) ↔
          commands ≠ [] ∧ failure ∈ plan.commandFaults := by
        cases commands <;> simp
      simp only [alternativeFaults, alternativeParts, List.mem_append, mem_listFaults elements, any,
        mem_alternativeFaults rest, or_and_right, exists_or, List.exists_mem_cons_iff]
      exact or_or_or_comm

end

theorem Plan.mem_bodyFaults {rule : Rule} : failure ∈ plan.bodyFaults rule.body ↔
    (∃ element ∈ rule.elements, element.block? = none ∧ failure ∈ plan.leafFaults element) ∨
      ∃ block ∈ rule.blocks, plan.blockFault failure block := by
  have whole : plan.bodyFaults rule.body = plan.elementFaults ⟨.block rule.body, none⟩ := rfl
  have parts : Element.parts ⟨.block rule.body, none⟩ = rule.elements ++ [⟨.block rule.body, none⟩] := rfl
  rw [whole, mem_elementFaults, parts, Rule.blocks]
  constructor
  · rintro ⟨element, listed, fault⟩
    unfold elementFault at fault
    split at fault
    · rename_i block known
      refine Or.inr ⟨block, ?_, fault⟩
      rcases List.mem_append.mp listed with inside | last
      · exact List.mem_append_left _ (List.mem_filterMap.mpr ⟨element, inside, known⟩)
      · obtain rfl := List.mem_singleton.mp last
        obtain rfl := Option.some.inj known
        exact List.mem_append_right _ List.mem_cons_self
    · rename_i leaf
      rcases List.mem_append.mp listed with inside | last
      · exact Or.inl ⟨element, inside, leaf, fault⟩
      · obtain rfl := List.mem_singleton.mp last
        cases leaf
  · rintro (⟨element, inside, leaf, fault⟩ | ⟨block, listed, fault⟩)
    · refine ⟨element, List.mem_append_left _ inside, ?_⟩
      simpa only [elementFault, leaf] using fault
    · rcases List.mem_append.mp listed with inside | last
      · obtain ⟨element, member, known⟩ := List.mem_filterMap.mp inside
        refine ⟨element, List.mem_append_left _ member, ?_⟩
        simpa only [elementFault, known] using fault
      · obtain rfl := List.mem_singleton.mp last
        exact ⟨_, List.mem_append_right _ List.mem_cons_self, fault⟩

/-- A construction fails only with the faults of its rules, and succeeds only without them. -/
theorem Plan.run_faults (plan : Plan) (journal : Journal) :
    match plan.run journal with
    | .ok _ _ => plan.faults = []
    | .error failure _ => failure ∈ plan.faults := by
  split
  · rename_i network after ends
    obtain ⟨others, parts, makes, _⟩ := completes_of_run ends
    refine List.flatMap_eq_nil_iff.mpr fun rule listed => ?_
    obtain ⟨index, found⟩ := List.getElem?_of_mem listed
    obtain ⟨part, _, draws⟩ := makes.part_of_rule (by simpa using found)
    have drawn : (plan.sketchBody index rule.body).isSome = true := by
      rw [draws.body]
      rfl
    rw [Plan.isSome_sketchBody] at drawn
    exact List.isEmpty_iff.mp drawn
  · rename_i failure after ends
    exact fault_of_run ends

theorem Plan.mem_faults : failure ∈ plan.faults ↔ ∃ rule ∈ plan.grammar.rules,
    (∃ element ∈ rule.elements, element.block? = none ∧ failure ∈ plan.leafFaults element) ∨
      ∃ block ∈ rule.blocks, plan.blockFault failure block := by
  simp only [faults, List.mem_flatMap, Array.mem_toList_iff, mem_bodyFaults]

theorem Plan.mem_callFaults {name : String} :
    failure ∈ plan.callFaults name ↔ plan.grammar.ruleIndex? name = none ∧ failure = .undefinedRule name := by
  unfold callFaults
  cases plan.grammar.ruleIndex? name <;> simp

theorem Plan.mem_itemFaults {item : Element} :
    failure ∈ Build.itemFaults item ↔ item.isSymbols = false ∧ failure = .inconsistent (.setItem item.kindName) := by
  obtain ⟨form, position⟩ := item
  cases form <;> simp [Build.itemFaults, Element.isSymbols]

theorem Plan.mem_leafFaults {element : Element} : failure ∈ plan.leafFaults element ↔
    (∃ name, element.reference? = some (.rule name) ∧ plan.grammar.ruleIndex? name = none ∧
      failure = .undefinedRule name) ∨
    plan.kind = .parser ∧ (∃ text, element.form = .charSet text) ∧
      failure = .unsupported "char set" plan.grammar.kind ∨
    plan.kind = .lexer ∧ (∃ name, element.reference? = some (.token name) ∧ name ≠ "EOF" ∧
      plan.grammar.ruleIndex? name = none ∧ failure = .undefinedRule name) ∨
    plan.kind = .lexer ∧ ∃ items inverted, element.form = .set items inverted ∧
      ∃ item ∈ items, item.isSymbols = false ∧ failure = .inconsistent (.setItem item.kindName) := by
  obtain ⟨form, position⟩ := element
  cases kind : plan.kind <;> cases form <;>
    simp [leafFaults, kind, Element.reference?, mem_callFaults, mem_itemFaults]

theorem Plan.mem_commandFaults : failure ∈ plan.commandFaults ↔
    plan.kind = .parser ∧ failure = .unsupported "lexer command" plan.grammar.kind := by
  unfold commandFaults
  cases plan.kind <;> simp

end Faults

/-- What a failure says about a rule. -/
def Plan.Explains (plan : Plan) (failure : Failure) (rule : Rule) : Prop :=
  match failure with
  | .inconsistent .emptyBlock => rule.HasEmptyBlock
  | .inconsistent (.setItem _) => plan.kind = .lexer ∧ rule.HasForeignItem
  | .unsupported _ _ => plan.kind = .parser ∧ (rule.HasCharSet ∨ rule.HasCommands)
  | .undefinedRule name => plan.kind = .lexer ∧ plan.grammar.kind = .parser ∧ .token name ∈ rule.references ∧
      name ≠ "EOF" ∧ plan.grammar.ruleIndex? name = none
  | _ => False

namespace Plan

variable {plan : Plan} {failure : Failure} {rule : Rule}

theorem Explains.rejects (explains : plan.Explains failure rule) : plan.Rejects rule := by
  unfold Explains at explains
  unfold Rejects
  split at explains
  · cases plan.kind with
    | parser => exact Or.inl explains
    | lexer => exact Or.inl explains
  · rw [explains.1]
    exact Or.inr (Or.inl explains.2)
  · rw [explains.1]
    exact Or.inr explains.2
  · rw [explains.1]
    exact Or.inr (Or.inr ⟨explains.2.1, _, explains.2.2⟩)
  · exact explains.elim

/-- Every fault of the plan is in the text of a rule. -/
theorem explains_of_fault (checked : plan.grammar.Checked) (listed : failure ∈ plan.faults) :
    ∃ rule ∈ plan.grammar.rules, plan.Explains failure rule := by
  obtain ⟨rule, member, ⟨element, inside, _, fault⟩ | ⟨block, inside, fault⟩⟩ := mem_faults.mp listed
  · refine ⟨rule, member, ?_⟩
    have refers : ∀ {reference}, element.reference? = some reference → reference ∈ rule.references :=
      fun found => List.mem_filterMap.mpr ⟨element, inside, found⟩
    rcases mem_leafFaults.mp fault with ⟨name, found, missing, rfl⟩ | ⟨parser, written, rfl⟩ |
      ⟨lexer, name, found, other, missing, rfl⟩ | ⟨lexer, items, inverted, form, item, within, foreign, rfl⟩
    · have known := checked.rules rule member name (refers found)
      rw [missing] at known
      cases known
    · exact ⟨parser, Or.inl ⟨element, inside, written⟩⟩
    · refine ⟨lexer, ?_, refers found, other, missing⟩
      cases kind : plan.grammar.kind with
      | parser => rfl
      | lexer =>
          rcases checked.tokens kind rule member name (refers found) with special | known
          · exact absurd special other
          · rw [missing] at known
            cases known
    · exact ⟨lexer, element, inside, items, inverted, form, item, within, foreign⟩
  · refine ⟨rule, member, ?_⟩
    rcases fault with ⟨empty, rfl⟩ | ⟨alternative, within, some, fault⟩
    · exact ⟨block, inside, empty⟩
    · obtain ⟨parser, rfl⟩ := mem_commandFaults.mp fault
      exact ⟨parser, Or.inr ⟨block, inside, alternative, within, some⟩⟩

theorem fault_of_rejects (member : rule ∈ plan.grammar.rules) (rejects : plan.Rejects rule) :
    ∃ failure, failure ∈ plan.faults := by
  have leaf : ∀ {element : Element} {failure : Failure}, element ∈ rule.elements → element.block? = none →
      failure ∈ plan.leafFaults element → failure ∈ plan.faults := fun inside simple fault =>
    mem_faults.mpr ⟨rule, member, Or.inl ⟨_, inside, simple, fault⟩⟩
  have empty : rule.HasEmptyBlock → ∃ failure, failure ∈ plan.faults := by
    rintro ⟨block, inside, none⟩
    exact ⟨_, mem_faults.mpr ⟨rule, member, Or.inr ⟨block, inside, Or.inl ⟨none, rfl⟩⟩⟩⟩
  unfold Rejects at rejects
  cases kind : plan.kind with
  | parser =>
      simp only [kind] at rejects
      rcases rejects with none | ⟨element, inside, text, form⟩ | ⟨block, inside, alternative, within, some⟩
      · exact empty none
      · have fault := mem_leafFaults.mpr (Or.inr (Or.inl ⟨kind, ⟨text, form⟩, rfl⟩))
        exact ⟨_, leaf inside (by simp [Element.block?, form]) fault⟩
      · have fault := mem_commandFaults.mpr ⟨kind, rfl⟩
        exact ⟨_, mem_faults.mpr ⟨rule, member, Or.inr ⟨block, inside, Or.inr ⟨alternative, within, some, fault⟩⟩⟩⟩
  | lexer =>
      simp only [kind] at rejects
      rcases rejects with none | ⟨element, inside, items, inverted, form, item, within, foreign⟩ |
        ⟨_, name, refers, other, missing⟩
      · exact empty none
      · have fault := mem_leafFaults.mpr
          (Or.inr (Or.inr (Or.inr ⟨kind, items, inverted, form, item, within, foreign, rfl⟩)))
        exact ⟨_, leaf inside (by simp [Element.block?, form]) fault⟩
      · obtain ⟨element, inside, found⟩ := List.mem_filterMap.mp refers
        have fault := mem_leafFaults.mpr (Or.inr (Or.inr (Or.inl ⟨kind, name, found, other, missing, rfl⟩)))
        refine ⟨_, leaf inside ?_ fault⟩
        obtain ⟨form, position⟩ := element
        cases form with
        | block body => cases found
        | _ => rfl

theorem missingState_not_mem_faults (plan : Plan) (id : StateId) : .missingState id ∉ plan.faults := by
  intro listed
  obtain ⟨rule, _, ⟨element, _, _, fault⟩ | ⟨block, _, ⟨_, fault⟩ | ⟨_, _, _, fault⟩⟩⟩ := mem_faults.mp listed
  · simp [mem_leafFaults] at fault
  · cases fault
  · simp [mem_commandFaults] at fault

def failure? (plan : Plan) (journal : Journal) : Option Failure :=
  match plan.run journal with
  | .ok _ _ => none
  | .error failure _ => some failure

/-- A construction from a grammar that passed the checks fails if and only if the plan rejects one of the rules,
whatever the lookahead is, and with a failure that says so: no reference is open but a token in a lexer that is
built for the rules of a parser, and the construction itself is never at fault. -/
theorem failure?_iff (plan : Plan) (journal : Journal) {draft : Draft} (built : draft.build = .ok plan.grammar) :
    ((plan.failure? journal).isSome = true ↔ ∃ rule ∈ plan.grammar.rules, plan.Rejects rule) ∧
      ∀ failure, plan.failure? journal = some failure → ∃ rule ∈ plan.grammar.rules, plan.Explains failure rule := by
  have checked := Draft.checked_of_build built
  have faults := plan.run_faults journal
  unfold failure?
  split at faults
  · refine ⟨⟨fun fails => absurd fails (by simp), ?_⟩, fun failure fails => absurd fails (by simp)⟩
    rintro ⟨rule, member, rejects⟩
    obtain ⟨failure, listed⟩ := fault_of_rejects member rejects
    rw [faults] at listed
    cases listed
  · obtain ⟨rule, member, explains⟩ := explains_of_fault checked faults
    refine ⟨⟨fun _ => ⟨rule, member, explains.rejects⟩, fun _ => rfl⟩, ?_⟩
    rintro _ ⟨⟩
    exact ⟨rule, member, explains⟩

end Plan

/-- The text `a : X ;` as that of a parser. -/
def loneToken : Draft where
  kind := .parser
  name := "P"
  rules := [{ name := "a", alternatives := [{ elements := [⟨.token "X", none⟩] }] }]

/-- A lexer for the rules of this parser, where the token has to be a rule. -/
def loneTokenLexer : Plan where
  grammar :=
    { kind := .parser
      name := "P"
      fileName := "P.g4"
      caseInsensitive := false
      rules := #[{ name := "a", alternatives := [{ elements := [⟨.token "X", none⟩] }] }]
      tokens := ["X"]
      channels := []
      modes := [defaultModeName]
      actionCount := 0 }
  kind := .lexer

theorem loneTokenLexer_failure : loneTokenLexer.failure? {} = some (.undefinedRule "X") := by
  decide +kernel

theorem loneTokenLexer_explains : loneToken.build = .ok loneTokenLexer.grammar ∧
    ∃ rule ∈ loneTokenLexer.grammar.rules, loneTokenLexer.Explains (.undefinedRule "X") rule :=
  ⟨rfl, (Plan.failure?_iff loneTokenLexer {} (rfl : loneToken.build = _)).2 _ loneTokenLexer_failure⟩

/-- This lexer fails, though no block of its rules is empty and no set has a foreign item. -/
theorem loneTokenLexer_undefined : loneToken.build = .ok loneTokenLexer.grammar ∧
    loneTokenLexer.failure? {} = some (.undefinedRule "X") ∧
    ∀ rule ∈ loneTokenLexer.grammar.rules, ¬rule.HasEmptyBlock ∧ ¬rule.HasForeignItem := by
  refine ⟨rfl, loneTokenLexer_failure, ?_⟩
  simp [loneTokenLexer, Rule.HasEmptyBlock, Rule.HasForeignItem, Rule.blocks, Rule.elements, Rule.body,
    alternativeParts, listParts, Element.parts, Element.block?]

end GrammarNetwork
