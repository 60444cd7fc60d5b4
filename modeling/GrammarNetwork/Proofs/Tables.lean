import GrammarNetwork.Proofs.Drafts

/-! Symbol tables: every name has one number in its table, and the numbers leave no gaps. Predicates and the actions of
a lexer are numbered in the order of the text. -/

namespace GrammarNetwork

/-- In a list without repetitions a name is found where it stands. -/
theorem idxOf?_eq_some_iff_of_nodup {names : List String} (once : names.Nodup) {name : String} {index : Nat} :
    names.idxOf? name = some index ↔ names[index]? = some name := by
  rw [List.idxOf?_eq_some_iff, List.getElem?_eq_some_iff]
  constructor
  · rintro ⟨bound, found, _⟩
    exact ⟨bound, found⟩
  · rintro ⟨bound, found⟩
    refine ⟨bound, found, fun earlier less same => ?_⟩
    have apart := List.pairwise_iff_getElem.mp once earlier index (by omega) bound less
    exact apart (same.trans found.symm)

namespace Draft

theorem mem_foldl_addNew {name : String} (names : List String) : ∀ {old : List String},
    name ∈ names.foldl addNew old ↔ name ∈ old ∨ name ∈ names := by
  induction names with
  | nil => simp
  | cons first rest ih =>
      intro old
      rw [List.foldl_cons, ih, addNew, List.mem_cons]
      split
      · rename_i present
        constructor
        · exact Or.imp_right Or.inr
        · rintro (inside | rfl | later)
          · exact Or.inl inside
          · exact Or.inl present
          · exact Or.inr later
      · rw [List.mem_append, List.mem_singleton, or_assoc]

theorem nodup_foldl_addNew (names : List String) : ∀ {old : List String}, old.Nodup →
    (names.foldl addNew old).Nodup := by
  induction names with
  | nil => exact id
  | cons first rest ih =>
      intro old once
      rw [List.foldl_cons]
      apply ih
      unfold addNew
      split
      · exact once
      · rename_i absent
        exact List.nodup_append.mpr ⟨once, List.nodup_singleton _, by grind⟩

/-- What a table starts with stays at its start. -/
theorem prefix_foldl_addNew (names : List String) : ∀ {old : List String}, old <+: names.foldl addNew old := by
  induction names with
  | nil => exact List.prefix_refl _
  | cons first rest ih =>
      intro old
      refine List.IsPrefix.trans ?_ ih
      unfold addNew
      split
      · exact List.prefix_refl _
      · exact List.prefix_append _ _

variable (draft : Draft)

theorem nodup_tokenTable : draft.tokenTable.Nodup :=
  nodup_foldl_addNew _ List.nodup_nil

theorem endOfInput_notMem_tokenTable : "EOF" ∉ draft.tokenTable := by
  intro listed
  have candidate := (mem_foldl_addNew _).mp listed
  simp at candidate

theorem nodup_channelTable : draft.channelTable.Nodup :=
  nodup_foldl_addNew _ List.nodup_nil

theorem mem_channelTable {name : String} : name ∈ draft.channelTable ↔ name ∈ draft.channels := by
  rw [channelTable, mem_foldl_addNew]
  simp

theorem nodup_modeTable : draft.modeTable.Nodup :=
  nodup_foldl_addNew _ (List.nodup_singleton _)

/-- The default mode comes first. -/
theorem head?_modeTable : draft.modeTable.head? = some defaultModeName := by
  obtain ⟨rest, same⟩ : [defaultModeName] <+: draft.modeTable := prefix_foldl_addNew _
  rw [← same]
  rfl

theorem mem_modeTable {rule : Rule} (listed : rule ∈ draft.rules) : rule.mode ∈ draft.modeTable := by
  refine (mem_foldl_addNew _).mpr (Or.inr (List.mem_append_right _ ?_))
  exact List.mem_map_of_mem listed

/-- The numbers are within the alternatives, so that nothing else of a rule changes. -/
theorem map_numberRules {α : Type} (value : Rule → α)
    (kept : ∀ (rule : Rule) (alternatives : List Alternative), value { rule with alternatives } = value rule)
    (numberActions : Bool) : ∀ (rules : List Rule) (numbering : Numbering),
    ((numberRules numberActions rules).run numbering).1.map value = rules.map value
  | [], _ => rfl
  | rule :: rest, _ => congrArg₂ List.cons (kept rule _) (map_numberRules value kept numberActions rest _)

end Draft

section Numbers

namespace Occurrence

def predicateNumber? (occurrence : Occurrence) : Option Nat :=
  match occurrence.element.form with
  | .predicate _ index _ => some index
  | _ => none

/-- The number of an action, which it may have or not. -/
def actionNumber? (occurrence : Occurrence) : Option (Option Nat) :=
  match occurrence.element.form with
  | .action _ index => some index
  | _ => none

/-- The kind of the element, and whether it is an item of a set. -/
def kind (occurrence : Occurrence) : String × Bool :=
  (occurrence.element.kindName, occurrence.inSet)

end Occurrence

/-- What numbering makes of the occurrences in a text. Together with the numbers given before they are all numbers below
the next one. -/
structure Numbered (numberActions : Bool) (before after : Numbering) (written numbered : List Occurrence) : Prop where
  kinds : numbered.map Occurrence.kind = written.map Occurrence.kind
  predicates : List.range before.predicates ++ numbered.filterMap Occurrence.predicateNumber? =
    List.range after.predicates
  actions : numberActions = true →
    (List.range before.actions).map some ++ numbered.filterMap Occurrence.actionNumber? =
      (List.range after.actions).map some
  others : numberActions = false → after.actions = before.actions

namespace Numbered

variable {numberActions : Bool} {before middle after : Numbering} {written numbered more rest : List Occurrence}

theorem nil (numberActions : Bool) (numbering : Numbering) : Numbered numberActions numbering numbering [] [] :=
  ⟨rfl, List.append_nil _, fun _ => List.append_nil _, fun _ => rfl⟩

theorem append (first : Numbered numberActions before middle written numbered)
    (second : Numbered numberActions middle after more rest) :
    Numbered numberActions before after (written ++ more) (numbered ++ rest) where
  kinds := by rw [List.map_append, List.map_append, first.kinds, second.kinds]
  predicates := by rw [List.filterMap_append, ← List.append_assoc, first.predicates, second.predicates]
  actions always := by
    rw [List.filterMap_append, ← List.append_assoc, first.actions always, second.actions always]
  others never := (second.others never).trans (first.others never)

/-- An element with no number of its own. -/
theorem cons {old new : Occurrence} (same : new.kind = old.kind) (predicate : new.predicateNumber? = none)
    (action : new.actionNumber? = none) (inner : Numbered numberActions before after written numbered) :
    Numbered numberActions before after (old :: written) (new :: numbered) where
  kinds := congrArg₂ List.cons same inner.kinds
  predicates := by rw [List.filterMap_cons_none predicate, inner.predicates]
  actions always := by rw [List.filterMap_cons_none action, inner.actions always]
  others := inner.others

theorem predicates_eq_range {after : Numbering} (numbered : Numbered numberActions {} after written more) :
    more.filterMap Occurrence.predicateNumber? =
      List.range (more.countP fun occurrence => occurrence.predicateNumber?.isSome) := by
  have range : more.filterMap Occurrence.predicateNumber? = List.range after.predicates := numbered.predicates
  have count := congrArg List.length range
  rw [List.length_filterMap_eq_countP, List.length_range] at count
  rw [range, count]

end Numbered

section Passes

variable (numberActions : Bool)

mutual

theorem numbered_numberElement (inSet : Bool) (numbering : Numbering) : ∀ (element : Element),
    Numbered numberActions numbering ((numberElement numberActions element).run numbering).2
      (elementOccurrences inSet element)
      (elementOccurrences inSet ((numberElement numberActions element).run numbering).1)
  | ⟨.action code index, position⟩ => by
      cases numberActions with
      | true =>
          refine ⟨rfl, List.append_nil _, fun _ => ?_, fun never => (by cases never)⟩
          have next : (List.range numbering.actions).map some ++ [some numbering.actions] =
              (List.range (numbering.actions + 1)).map some := by
            rw [List.range_succ, List.map_append]
            rfl
          exact next
      | false => exact ⟨rfl, List.append_nil _, fun always => (by cases always), fun _ => rfl⟩
  | ⟨.predicate code index precedence, position⟩ =>
      ⟨rfl, List.range_succ.symm, fun _ => List.append_nil _, fun _ => rfl⟩
  | ⟨.set items inverted, position⟩ =>
      .cons rfl rfl rfl (numbered_numberElements true numbering items)
  | ⟨.block ⟨alternatives, suffix⟩, position⟩ =>
      .cons rfl rfl rfl (numbered_numberAlternatives numbering alternatives)
  | ⟨.token name, position⟩ | ⟨.rule name precedence, position⟩ | ⟨.literal text, position⟩
  | ⟨.charSet text, position⟩ | ⟨.range first last, position⟩ | ⟨.wildcard, position⟩ =>
      .cons rfl rfl rfl (.nil numberActions numbering)

theorem numbered_numberElements (inSet : Bool) (numbering : Numbering) : ∀ (elements : List Element),
    Numbered numberActions numbering ((numberElements numberActions elements).run numbering).2
      (listOccurrences inSet elements)
      (listOccurrences inSet ((numberElements numberActions elements).run numbering).1)
  | [] => .nil numberActions numbering
  | first :: rest =>
      (numbered_numberElement inSet numbering first).append
        (numbered_numberElements inSet ((numberElement numberActions first).run numbering).2 rest)

theorem numbered_numberAlternatives (numbering : Numbering) : ∀ (alternatives : List Alternative),
    Numbered numberActions numbering ((numberAlternatives numberActions alternatives).run numbering).2
      (alternativeOccurrences alternatives)
      (alternativeOccurrences ((numberAlternatives numberActions alternatives).run numbering).1)
  | [] => .nil numberActions numbering
  | ⟨elements, _⟩ :: rest =>
      (numbered_numberElements false numbering elements).append
        (numbered_numberAlternatives ((numberElements numberActions elements).run numbering).2 rest)

end

theorem numbered_numberRules (numbering : Numbering) : ∀ (rules : List Rule),
    Numbered numberActions numbering ((Draft.numberRules numberActions rules).run numbering).2
      (rules.flatMap Rule.occurrences)
      (((Draft.numberRules numberActions rules).run numbering).1.flatMap Rule.occurrences)
  | [] => .nil numberActions numbering
  | rule :: rest =>
      (numbered_numberAlternatives numberActions numbering rule.alternatives).append
        (numbered_numberRules ((numberAlternatives numberActions rule.alternatives).run numbering).2 rest)

end Passes

end Numbers

namespace Grammar

/-- All elements of the grammar in the order of the text. -/
def occurrences (grammar : Grammar) : List Occurrence :=
  grammar.rules.toList.flatMap Rule.occurrences

variable {grammar : Grammar}

theorem tokenType_eq_iff (once : grammar.tokens.Nodup) (plain : "EOF" ∉ grammar.tokens) {index : Nat}
    {name : String} : grammar.tokenType name = minUserTokenType + index ↔ grammar.tokens[index]? = some name := by
  rw [← idxOf?_eq_some_iff_of_nodup once, tokenType]
  by_cases special : name = "EOF"
  · have absent : grammar.tokens.idxOf? name = none := List.idxOf?_eq_none_iff.mpr (special ▸ plain)
    rw [if_pos special, absent]
    simp only [endOfInput, minUserTokenType, reduceCtorEq, iff_false]
    omega
  · rw [if_neg special]
    cases grammar.tokens.idxOf? name with
    | none =>
        simp only [invalidType, minUserTokenType, reduceCtorEq, iff_false]
        omega
    | some found =>
        simp only [Option.some.injEq]
        omega

theorem tokenType_of_notMem {name : String} (special : name ≠ "EOF") (absent : name ∉ grammar.tokens) :
    grammar.tokenType name = invalidType := by
  rw [tokenType, if_neg special, List.idxOf?_eq_none_iff.mpr absent]

/-- A channel of the grammar has a number of its own, unless every lexer has it. -/
theorem channel?_eq_iff (once : grammar.channels.Nodup) {index : Nat} {name : String} (hidden : name ≠ "HIDDEN")
    (default : name ≠ "DEFAULT_TOKEN_CHANNEL") :
    grammar.channel? name = some (minUserChannel + index) ↔ grammar.channels[index]? = some name := by
  rw [← idxOf?_eq_some_iff_of_nodup once, channel?, if_neg hidden, if_neg default]
  cases grammar.channels.idxOf? name with
  | none => simp
  | some found =>
      rw [Option.some.injEq]
      change some (minUserChannel + (found : Int)) = some (minUserChannel + (index : Int)) ↔ found = index
      rw [Option.some.injEq]
      omega

/-- Every type up to the largest is that of one token. -/
theorem exists_token (once : grammar.tokens.Nodup) (plain : "EOF" ∉ grammar.tokens) {type : Int}
    (low : minUserTokenType ≤ type) (high : type ≤ grammar.maxTokenType) :
    ∃ name, name ≠ "EOF" ∧ grammar.tokens[(type - minUserTokenType).toNat]? = some name ∧
      ∀ other, grammar.tokenType other = type ↔ other = name := by
  obtain ⟨index, rfl⟩ : ∃ index : Nat, type = minUserTokenType + index :=
    ⟨(type - minUserTokenType).toNat, by omega⟩
  have bound : index < grammar.tokens.length := by
    simp only [minUserTokenType, maxTokenType] at high
    omega
  have found : grammar.tokens[index]? = some grammar.tokens[index] := List.getElem?_eq_getElem bound
  refine ⟨grammar.tokens[index], ?_, ?_, fun other => ?_⟩
  · intro special
    exact plain (special ▸ List.getElem_mem bound)
  · have offset : (minUserTokenType + (index : Int) - minUserTokenType).toNat = index := by omega
    rw [offset, found]
  · rw [tokenType_eq_iff once plain, found, Option.some.injEq, eq_comm]

theorem exists_channel (once : grammar.channels.Nodup) {name : String} (listed : name ∈ grammar.channels)
    (hidden : name ≠ "HIDDEN") (default : name ≠ "DEFAULT_TOKEN_CHANNEL") :
    ∃ value, grammar.channel? name = some value ∧ minUserChannel ≤ value ∧
      ∀ other, grammar.channel? other = some value → other = name := by
  obtain ⟨index, found⟩ := List.getElem?_of_mem listed
  refine ⟨minUserChannel + index, (channel?_eq_iff once hidden default).mpr found, by omega, fun other same => ?_⟩
  by_cases isHidden : other = "HIDDEN"
  · simp only [channel?, if_pos isHidden, hiddenChannel, minUserChannel, Option.some.injEq] at same
    omega
  by_cases isDefault : other = "DEFAULT_TOKEN_CHANNEL"
  · simp only [channel?, if_neg isHidden, if_pos isDefault, defaultChannel, minUserChannel, Option.some.injEq] at same
    omega
  · rw [channel?_eq_iff once isHidden isDefault, found] at same
    exact (Option.some.inj same).symm

theorem exists_rule {name : String} {index : Nat} (found : grammar.ruleIndex? name = some index) :
    ∃ rule, grammar.rules[index]? = some rule ∧ rule.name = name := by
  obtain ⟨bound, named, _⟩ := Array.findIdx?_eq_some_iff_getElem.mp found
  exact ⟨_, Array.getElem?_eq_getElem bound, by simpa using named⟩

end Grammar

/-- The tables of a grammar that was built from the draft are one-to-one, and their numbers leave no gaps. -/
structure Grammar.Tabulated (grammar : Grammar) (draft : Draft) : Prop where
  /-- Every type up to the largest is that of one token. -/
  types : ∀ type, minUserTokenType ≤ type → type ≤ grammar.maxTokenType → ∃ name, name ≠ "EOF" ∧
    grammar.tokens[(type - minUserTokenType).toNat]? = some name ∧
    ∀ other, grammar.tokenType other = type ↔ other = name
  unknown : ∀ name, name ≠ "EOF" → name ∉ grammar.tokens → grammar.tokenType name = invalidType
  channels : ∀ name ∈ draft.channels, name ≠ "HIDDEN" → name ≠ "DEFAULT_TOKEN_CHANNEL" →
    ∃ value, grammar.channel? name = some value ∧ minUserChannel ≤ value ∧
      ∀ other, grammar.channel? other = some value → other = name
  modes : grammar.modes.Nodup
  defaultMode : grammar.modes.head? = some defaultModeName
  ruleModes : ∀ rule ∈ grammar.rules, rule.mode ∈ grammar.modes
  names : grammar.rules.toList.map Rule.name = draft.rules.map Rule.name
  indices : ∀ index rule, grammar.rules[index]? = some rule → grammar.ruleIndex? rule.name = some index
  rules : ∀ name index, grammar.ruleIndex? name = some index →
    ∃ rule, grammar.rules[index]? = some rule ∧ rule.name = name
  kinds : grammar.occurrences.map Occurrence.kind = (draft.rules.flatMap Rule.occurrences).map Occurrence.kind
  predicates : grammar.occurrences.filterMap Occurrence.predicateNumber? =
    List.range (grammar.occurrences.countP fun occurrence => occurrence.predicateNumber?.isSome)
  actions : match grammar.kind with
    | .lexer => grammar.occurrences.filterMap Occurrence.actionNumber? = (List.range grammar.actionCount).map some
    | .parser => grammar.actionCount = 0

theorem Draft.mode_mem_grammar (draft : Draft) : ∀ rule ∈ draft.grammar.rules, rule.mode ∈ draft.grammar.modes := by
  intro rule listed
  have modes : draft.grammar.rules.toList.map Rule.mode = draft.rules.map Rule.mode :=
    map_numberRules Rule.mode (fun _ _ => rfl) (draft.kind == .lexer) draft.rules {}
  have mode : rule.mode ∈ draft.grammar.rules.toList.map Rule.mode :=
    List.mem_map_of_mem (Array.mem_toList_iff.mpr listed)
  rw [modes, List.mem_map] at mode
  obtain ⟨source, known, same⟩ := mode
  exact same ▸ draft.mem_modeTable known

/-- If a draft is a grammar, its tables are one-to-one and have no gaps. -/
theorem Draft.build_tabulated (draft : Draft) :
    match draft.build with
    | .ok grammar => grammar.Tabulated draft
    | .error _ => True := by
  split
  · rename_i grammar built
    have checked := Draft.checked_of_build built
    obtain ⟨_, _, rfl⟩ := Draft.build_eq_grammar built
    have numbered : Numbered (draft.kind == .lexer) {} _ (draft.rules.flatMap Rule.occurrences)
        draft.grammar.occurrences := numbered_numberRules (draft.kind == .lexer) {} draft.rules
    exact
      { types := fun _ => Grammar.exists_token draft.nodup_tokenTable draft.endOfInput_notMem_tokenTable
        unknown := fun _ => Grammar.tokenType_of_notMem
        channels := fun _ listed => Grammar.exists_channel draft.nodup_channelTable (draft.mem_channelTable.mpr listed)
        modes := draft.nodup_modeTable
        defaultMode := draft.head?_modeTable
        ruleModes := draft.mode_mem_grammar
        names := names_numberRules (draft.kind == .lexer) {} draft.rules
        indices := fun _ _ found => (checked.ruleIndex?_eq found).mpr rfl
        rules := fun _ _ => Grammar.exists_rule
        kinds := numbered.kinds
        predicates := numbered.predicates_eq_range
        actions := by
          have same : draft.grammar.kind = draft.kind := rfl
          rw [same]
          cases kind : draft.kind with
          | lexer => exact numbered.actions (by rw [kind]; rfl)
          | parser => exact numbered.others (by rw [kind]; rfl) }
  · trivial

end GrammarNetwork
