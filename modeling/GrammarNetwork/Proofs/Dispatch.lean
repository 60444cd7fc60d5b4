import Mathlib.Data.List.Count
import GrammarNetwork.Proofs.Joints
import GrammarNetwork.Proofs.Networks
import GrammarNetwork.Proofs.Tables

/-! Dispatch in a lexer: in each mode exactly those of its rules can be tried that are no fragments, in the order of
their declaration, and each of them emits a token of its own. -/

namespace GrammarNetwork

/-- The state is neither the entry of a mode nor the start of a rule. -/
def StateKind.IsInside : StateKind → Prop
  | .tokensStart | .ruleStart _ _ => False
  | _ => True

theorem Trail.isInside_layout {starts : Array StateId} {rule : Option Nat} (trail : Trail) {next : Option StateId}
    {entry : StateId × State} (member : entry ∈ trail.layout starts rule next) : entry.2.kind.IsInside := by
  rcases trail.mem_layout member with ⟨transitions, same, _⟩ | ⟨⟨frame, start, exit, entries⟩, _, after, framed⟩
  · rw [same]
    trivial
  · cases frame <;>
      simp only [Joint.states, Frame.states, Frame.loopStates, Frame.startState, Frame.exitState, List.mem_cons,
        List.not_mem_nil, or_false] at framed <;>
      rcases framed with rfl | rfl | rfl | rfl | rfl <;>
      trivial

namespace Network.Houses

variable {network : Network} {others : Heap} {parts : List RulePart}

theorem start_inj (houses : network.Houses others parts) {first second : Nat} {one other : RulePart}
    (left : parts[first]? = some one) (right : parts[second]? = some other) (same : one.start = other.start) :
    first = second := by
  have atLeft := houses.state?_start left
  rw [same, houses.state?_start right] at atLeft
  have owner := congrArg (Option.map State.rule) atLeft
  simpa using owner.symm

theorem mem_ruleStarts (houses : network.Houses others parts) {id : StateId} :
    id ∈ network.ruleStarts ↔ ∃ (index : Nat) (part : RulePart), parts[index]? = some part ∧ part.start = id := by
  rw [← Array.mem_toList_iff, houses.starts, List.mem_map]
  constructor
  · rintro ⟨part, listed, rfl⟩
    obtain ⟨index, found⟩ := List.getElem?_of_mem listed
    exact ⟨index, part, found, rfl⟩
  · rintro ⟨index, part, found, rfl⟩
    exact ⟨part, List.mem_of_getElem? found, rfl⟩

/-- A state outside all rules, the start of a rule, or another state of a rule. -/
theorem kind_cases (houses : network.Houses others parts) {id : StateId} {state : State}
    (found : network.state? id = some state) :
    (id ∈ others.ids ∧ (state.kind = .basic ∨ state.kind = .tokensStart)) ∨
      (id ∈ network.ruleStarts ∧ ∃ stop recursive, state.kind = .ruleStart stop recursive) ∨ state.kind.IsInside := by
  rcases houses.mem_of_state? found with outside | ⟨index, part, known, member⟩
  · exact Or.inl ⟨Heap.mem_ids_of_mem outside, (houses.neutral _ outside).kind⟩
  · simp only [RulePart.heap, List.mem_cons, Prod.mk.injEq] at member
    rcases member with ⟨rfl, rfl⟩ | ⟨_, rfl⟩ | within
    · exact Or.inr (Or.inl ⟨houses.mem_ruleStarts.mpr ⟨index, part, known, rfl⟩, _, _, rfl⟩)
    · exact Or.inr (Or.inr trivial)
    · exact Or.inr (Or.inr (part.body.isInside_layout within))

theorem mem_ruleStarts_of_kind (houses : network.Houses others parts) {id : StateId} {state : State}
    (found : network.state? id = some state) {stop : StateId} {recursive : Bool}
    (kind : state.kind = .ruleStart stop recursive) : id ∈ network.ruleStarts := by
  rcases houses.kind_cases found with ⟨_, plain | plain⟩ | ⟨start, _⟩ | inside
  · rw [kind] at plain
    cases plain
  · rw [kind] at plain
    cases plain
  · exact start
  · rw [kind] at inside
    exact inside.elim

theorem mem_others_of_kind (houses : network.Houses others parts) {id : StateId} {state : State}
    (found : network.state? id = some state) (kind : state.kind = .tokensStart) : id ∈ others.ids := by
  rcases houses.kind_cases found with ⟨outside, _⟩ | ⟨_, stop, recursive, start⟩ | inside
  · exact outside
  · rw [kind] at start
    cases start
  · rw [kind] at inside
    exact inside.elim

/-- What is behind the start of a rule is no start. -/
theorem notMem_ruleStarts (houses : network.Houses others parts) {index : Nat} {part : RulePart}
    (known : parts[index]? = some part) {id : StateId} (inside : id ∈ part.stop :: part.body.ids) :
    id ∉ network.ruleStarts := by
  intro start
  obtain ⟨other, owner, found, rfl⟩ := houses.mem_ruleStarts.mp start
  have atStart := houses.state?_start found
  rcases List.mem_cons.mp inside with same | body
  · rw [same, houses.state?_stop known] at atStart
    cases atStart
  · rw [← part.body.ids_layout network.ruleStarts (some index) (some part.stop)] at body
    obtain ⟨state, within⟩ := Heap.mem_ids.mp body
    rw [houses.holds_body known _ _ within] at atStart
    cases atStart
    exact part.body.isInside_layout within

/-- Where no end of a rule leads on, a rule is entered from outside or called. -/
theorem enters (houses : network.Houses others parts) (bare : ∀ part ∈ parts, part.exits = []) {id : StateId}
    {state : State} (found : network.state? id = some state) {transition : Transition}
    (listed : transition ∈ state.transitions) (start : transition.target ∈ network.ruleStarts) :
    id ∈ others.ids ∨ transition.label.isCall = true := by
  rcases houses.mem_of_state? found with outside | ⟨index, part, known, member⟩
  · exact Or.inl (Heap.mem_ids_of_mem outside)
  · simp only [RulePart.heap, List.mem_cons, Prod.mk.injEq] at member
    rcases member with ⟨_, rfl⟩ | ⟨_, rfl⟩ | within
    · obtain ⟨first, opens, rfl⟩ := List.mem_map.mp listed
      refine absurd start (houses.notMem_ruleStarts known (List.mem_cons_of_mem _ ?_))
      exact Trail.first?_mem (Option.mem_toList.mp opens)
    · rw [bare part (List.mem_of_getElem? known)] at listed
      cases listed
    · have confined : state.Confined network.ruleStarts (some index) (part.stop :: part.body.ids) :=
        part.body.confined (houses.callsBelow known) (fun _ => List.mem_cons_of_mem _) List.mem_cons_self _ within
      obtain ⟨label, next, rfl, _, inside⟩ := confined.transitions transition listed
      cases label with
      | call => exact Or.inr rfl
      | _ => exact absurd start (houses.notMem_ruleStarts known inside)

end Network.Houses

/-- Where a function has values for all items, they are those that it keeps. -/
theorem forall₂_filterMap {α β : Type} {value : α → Option β} : ∀ {items : List α},
    (∀ item ∈ items, (value item).isSome = true) →
      List.Forall₂ (fun item result => value item = some result) items (items.filterMap value)
  | [], _ => .nil
  | first :: rest, all => by
      rw [List.forall_mem_cons] at all
      obtain ⟨result, found⟩ := Option.isSome_iff_exists.mp all.1
      rw [List.filterMap_cons_some found]
      exact .cons found (forall₂_filterMap all.2)

theorem Grammar.mem_modeRules {grammar : Grammar} {mode : String} {entry : Rule × Nat} :
    entry ∈ grammar.modeRules mode ↔ grammar.rules[entry.2]? = some entry.1 ∧ entry.1.mode = mode := by
  rw [Grammar.modeRules, List.mem_filter, List.mem_zipIdx_iff_getElem?, Array.getElem?_toList, beq_iff_eq]

namespace Plan

variable {plan : Plan} {network : Network} {others : Heap} {parts : List RulePart}

/-- A rule of the mode that is no fragment is a target, and nothing else is. -/
theorem mem_modeTargets (makes : plan.Makes network others parts) {index : Nat} {rule : Rule} {part : RulePart}
    (listed : plan.grammar.rules[index]? = some rule) (known : parts[index]? = some part) {mode : String} :
    part.start ∈ plan.modeTargets parts mode ↔ mode = rule.mode ∧ rule.isFragment = false := by
  simp only [modeTargets, List.mem_filterMap, List.mem_filter, Grammar.mem_modeRules, Option.map_eq_some_iff,
    Bool.not_eq_true']
  constructor
  · rintro ⟨⟨other, place⟩, ⟨⟨found, rfl⟩, plain⟩, owner, there, same⟩
    obtain rfl := makes.houses.start_inj there known same
    rw [listed] at found
    cases found
    exact ⟨rfl, plain⟩
  · rintro ⟨rfl, plain⟩
    exact ⟨(rule, index), ⟨⟨listed, rfl⟩, plain⟩, part, known, rfl⟩

theorem nodup_modeTargets (makes : plan.Makes network others parts) (mode : String) :
    (plan.modeTargets parts mode).Nodup := by
  have places : (((plan.grammar.modeRules mode).filter fun entry => !entry.1.isFragment).map Prod.snd).Nodup := by
    have whole : (plan.grammar.rules.toList.zipIdx.map Prod.snd).Nodup := by
      rw [List.zipIdx_map_snd]
      exact List.nodup_range'
    exact whole.sublist ((List.filter_sublist.trans List.filter_sublist).map Prod.snd)
  have kept : plan.modeTargets parts mode =
      (((plan.grammar.modeRules mode).filter fun entry => !entry.1.isFragment).map Prod.snd).filterMap fun index =>
        parts[index]?.map RulePart.start := by
    rw [List.filterMap_map]
    rfl
  rw [kept]
  refine places.filterMap fun first second start left right => ?_
  obtain ⟨one, atLeft, rfl⟩ := Option.map_eq_some_iff.mp left
  obtain ⟨other, atRight, same⟩ := Option.map_eq_some_iff.mp right
  exact makes.houses.start_inj atLeft atRight same.symm

end Plan

/-- The state is the entry of the mode. It leads to the rules of the mode that are no fragments, in the order of their
declaration, and nowhere else. -/
def Network.OpensMode (network : Network) (grammar : Grammar) (id : StateId) (mode : String) : Prop :=
  ∃ state, network.state? id = some state ∧ state.kind = .tokensStart ∧
    List.Forall₂ (fun entry transition => network.ruleStarts[entry.2]?.map Transition.silent = some transition)
      ((grammar.modeRules mode).filter fun entry => !entry.1.isFragment) state.transitions

/-- In every mode the network of a lexer tries the rules of the mode. -/
structure Network.DispatchesModes (network : Network) (grammar : Grammar) : Prop where
  modes : List.Forall₂ (network.OpensMode grammar) network.modeStarts.toList grammar.modes
  distinct : network.modeStarts.toList.Nodup
  entries : ∀ id state, network.state? id = some state → state.kind = .tokensStart → id ∈ network.modeStarts
  /-- One entry leads to a rule once, and no entry leads to a fragment. -/
  rules : ∀ (index : Nat) (rule : Rule), grammar.rules[index]? = some rule → ∃ start own,
    network.ruleStarts[index]? = some start ∧ network.isInRule (some index) start = true ∧
      (own, rule.mode) ∈ network.modeStarts.toList.zip grammar.modes ∧
      ∀ id ∈ network.modeStarts, ∀ state, network.state? id = some state →
        state.transitions.count (.silent start) = if id = own ∧ rule.isFragment = false then 1 else 0
  starts : ∀ id, id ∈ network.ruleStarts ↔
    ∃ state stop recursive, network.state? id = some state ∧ state.kind = .ruleStart stop recursive
  calls : ∀ id state, network.state? id = some state → ∀ transition ∈ state.transitions,
    transition.target ∈ network.ruleStarts → id ∈ network.modeStarts ∨ transition.label.isCall = true

theorem Transition.silent_injective : Function.Injective Transition.silent :=
  fun _ _ same => congrArg Transition.target same

namespace Build.Completion

variable {plan : Plan} {journal : Journal} {network : Network} {after : Construction} {others : Heap}
  {parts : List RulePart}

section Modes

variable (completion : Completion plan journal network after others parts) (lexer : plan.kind = .lexer)

include completion lexer

theorem mem_modeStarts {id : StateId} : id ∈ network.modeStarts ↔ id < plan.grammar.modes.length := by
  rw [← Array.mem_toList_iff, (completion.dispatched lexer).modes, List.mem_range]

theorem mem_modeStarts_of_other {id : StateId} (outside : id ∈ others.ids) : id ∈ network.modeStarts := by
  rw [(completion.dispatched lexer).entries, ids_modeEntries, List.mem_range'_1, Nat.zero_add,
    List.length_map] at outside
  exact (completion.mem_modeStarts lexer).mpr outside.2

theorem state?_entry {index : Nat} {mode : String} (found : plan.grammar.modes[index]? = some mode) :
    network.state? index = some (.entry index (plan.modeTargets parts mode)) := by
  refine completion.makes.houses.state?_other ?_
  rw [(completion.dispatched lexer).entries, mem_modeEntries]
  refine ⟨index, _, ?_, (Nat.zero_add index).symm, rfl⟩
  rw [List.getElem?_map, found, Option.map_some]

theorem opensMode {index : Nat} {mode : String} (found : plan.grammar.modes[index]? = some mode) :
    network.OpensMode plan.grammar index mode := by
  refine ⟨_, completion.state?_entry lexer found, rfl, ?_⟩
  have houses := completion.makes.houses
  rw [State.entry, List.forall₂_map_right_iff]
  have all : ∀ entry ∈ (plan.grammar.modeRules mode).filter fun entry => !entry.1.isFragment,
      (parts[entry.2]?.map RulePart.start).isSome = true := by
    intro entry listed
    have known := (Grammar.mem_modeRules.mp (List.mem_filter.mp listed).1).1
    obtain ⟨part, there, _⟩ := completion.makes.part_of_rule known
    rw [there]
    rfl
  refine (forall₂_filterMap all).imp fun entry start there => ?_
  rw [houses.ruleStarts_getElem?, there, Option.map_some]

theorem count_entry {index own id : Nat} {rule : Rule} {part : RulePart} {state : State}
    (listed : plan.grammar.rules[index]? = some rule) (known : parts[index]? = some part)
    (once : plan.grammar.modes.Nodup) (place : plan.grammar.modes[own]? = some rule.mode)
    (entry : id ∈ network.modeStarts) (found : network.state? id = some state) :
    state.transitions.count (.silent part.start) = if id = own ∧ rule.isFragment = false then 1 else 0 := by
  have bound := (completion.mem_modeStarts lexer).mp entry
  have mode := List.getElem?_eq_getElem bound
  rw [completion.state?_entry lexer mode] at found
  cases found
  have same : id = own ↔ plan.grammar.modes[id] = rule.mode := by
    rw [← List.getElem?_inj bound once, mode, place, Option.some.injEq]
  rw [State.entry, List.count_map_of_injective _ _ Transition.silent_injective,
    (Plan.nodup_modeTargets completion.makes _).count]
  simp only [Plan.mem_modeTargets completion.makes listed known, same]

theorem dispatchesModes (once : plan.grammar.modes.Nodup)
    (own : ∀ rule ∈ plan.grammar.rules, rule.mode ∈ plan.grammar.modes) : network.DispatchesModes plan.grammar := by
  have houses := completion.makes.houses
  have starts := (completion.dispatched lexer).modes
  have bare := completion.linked
  rw [lexer] at bare
  constructor
  · refine List.forall₂_iff_get.mpr ⟨by rw [starts, List.length_range], fun index first second => ?_⟩
    simp only [starts, List.get_eq_getElem, List.getElem_range]
    exact completion.opensMode lexer (List.getElem?_eq_getElem second)
  · rw [starts]
    exact List.nodup_range
  · exact fun id state found kind => completion.mem_modeStarts_of_other lexer (houses.mem_others_of_kind found kind)
  · intro index rule listed
    obtain ⟨part, known, _⟩ := completion.makes.part_of_rule listed
    obtain ⟨place, found⟩ := List.getElem?_of_mem (own rule (Array.mem_of_getElem? listed))
    refine ⟨part.start, place, ?_, ?_, ?_, fun id entry state live =>
      completion.count_entry lexer listed known once found entry live⟩
    · rw [houses.ruleStarts_getElem?, known, Option.map_some]
    · simp [Network.isInRule, houses.state?_start known]
    · obtain ⟨bound, same⟩ := List.getElem?_eq_some_iff.mp found
      rw [starts, List.mem_iff_getElem?]
      refine ⟨place, ?_⟩
      rw [List.getElem?_zip_eq_some]
      exact ⟨List.getElem?_range bound, found⟩
  · intro id
    constructor
    · intro start
      obtain ⟨index, part, known, rfl⟩ := houses.mem_ruleStarts.mp start
      exact ⟨_, _, _, houses.state?_start known, rfl⟩
    · rintro ⟨state, stop, recursive, found, kind⟩
      exact houses.mem_ruleStarts_of_kind found kind
  · intro id state found transition leaves start
    exact (houses.enters bare found leaves start).imp_left (completion.mem_modeStarts_of_other lexer)

end Modes

end Build.Completion

/-- In each mode of a lexer its own rules are tried, each once, and no fragments. No other state leads to a rule but by
calling it. -/
theorem Draft.run_dispatch (draft : Draft) (lookahead : Lookahead) (templates : Templates) (journal : Journal) :
    match draft.kind, draft.build with
    | .lexer, .ok grammar =>
        match ({ grammar, kind := .lexer, lookahead, templates } : Plan).run journal with
        | .error _ _ => True
        | .ok network _ => network.DispatchesModes grammar
    | _, _ => True := by
  split
  · rename_i grammar lexer built
    split
    · trivial
    rename_i network after ends
    obtain ⟨others, parts, completion⟩ := Plan.completes_of_run ends
    obtain ⟨_, _, rfl⟩ := build_eq_grammar built
    exact completion.dispatchesModes rfl draft.nodup_modeTable draft.mode_mem_grammar
  · trivial

section Types

namespace Grammar

variable {grammar : Grammar} {first second : String}

theorem tokenType_eq_invalidType (name : String) :
    grammar.tokenType name = invalidType ↔ name ≠ "EOF" ∧ name ∉ grammar.tokens := by
  constructor
  · intro none
    rw [tokenType] at none
    by_cases special : name = "EOF"
    · rw [if_pos special] at none
      cases none
    · rw [if_neg special] at none
      cases found : grammar.tokens.idxOf? name with
      | none => exact ⟨special, List.idxOf?_eq_none_iff.mp found⟩
      | some index =>
          simp only [found, minUserTokenType, invalidType] at none
          omega
  · rintro ⟨special, absent⟩
    exact tokenType_of_notMem special absent

/-- A type belongs to one name only. -/
theorem tokenType_inj (once : grammar.tokens.Nodup) (plain : "EOF" ∉ grammar.tokens)
    (typed : grammar.tokenType first ≠ invalidType) (same : grammar.tokenType first = grammar.tokenType second) :
    first = second := by
  have listed : ∀ name : String, grammar.tokenType name ≠ invalidType → name ≠ "EOF" → name ∈ grammar.tokens := by
    intro name known other
    by_contra absent
    exact known (tokenType_of_notMem other absent)
  have ending : ∀ name : String, grammar.tokenType name = endOfInput → name = "EOF" := by
    intro name ends
    by_contra other
    obtain ⟨index, found⟩ := List.getElem?_of_mem (listed name (by rw [ends]; decide) other)
    rw [(tokenType_eq_iff once plain).mpr found, minUserTokenType, endOfInput] at ends
    omega
  by_cases special : first = "EOF"
  · have ends : grammar.tokenType first = endOfInput := if_pos special
    rw [special, ending second (same.symm.trans ends)]
  · obtain ⟨index, found⟩ := List.getElem?_of_mem (listed first typed special)
    have other := same.symm.trans ((tokenType_eq_iff once plain).mpr found)
    rw [tokenType_eq_iff once plain, found] at other
    exact Option.some.inj other

end Grammar

namespace Draft

variable {draft : Draft}

/-- The tokens of a lexer: the declared ones, and a token for each rule that is no fragment. -/
theorem mem_lexerTokenTable (lexer : draft.kind = .lexer) {name : String} :
    name ∈ draft.tokenTable ↔ name ≠ "EOF" ∧
      (name ∈ draft.tokens ∨ ∃ rule ∈ draft.grammar.rules, rule.isFragment = false ∧ rule.name = name) := by
  have same : draft.grammar.rules.toList.map (fun rule => (rule.isFragment, rule.name)) =
      draft.rules.map fun rule => (rule.isFragment, rule.name) :=
    map_numberRules _ (fun _ _ => rfl) (draft.kind == .lexer) draft.rules {}
  have source : (∃ rule ∈ draft.rules, rule.isFragment = false ∧ rule.name = name) ↔
      ∃ rule ∈ draft.grammar.rules, rule.isFragment = false ∧ rule.name = name := by
    have listed : (false, name) ∈ draft.grammar.rules.toList.map (fun rule => (rule.isFragment, rule.name)) ↔
        (false, name) ∈ draft.rules.map fun rule => (rule.isFragment, rule.name) := by rw [same]
    simp only [List.mem_map, Prod.mk.injEq, Array.mem_toList_iff] at listed
    exact listed.symm
  have candidates : name ∈ draft.tokenCandidates ↔
      name ∈ draft.tokens ∨ ∃ rule ∈ draft.rules, rule.isFragment = false ∧ rule.name = name := by
    rw [tokenCandidates, lexer, List.mem_append, List.mem_map]
    simp [List.mem_filter, and_assoc]
  rw [tokenTable, mem_foldl_addNew, List.mem_filter, candidates, source]
  simp [and_comm]

/-- A rule of a lexer has no type just if it is a fragment and no token has its name. -/
theorem tokenType_rule (lexer : draft.kind = .lexer) (checked : draft.grammar.Checked) {rule : Rule}
    (listed : rule ∈ draft.grammar.rules) :
    draft.grammar.tokenType rule.name = invalidType ↔
      rule.isFragment = true ∧ rule.name ≠ "EOF" ∧ rule.name ∉ draft.tokens := by
  have table : draft.grammar.tokens = draft.tokenTable := rfl
  have own : ∀ other ∈ draft.grammar.rules, other.name = rule.name → other = rule := fun other known same =>
    List.inj_on_of_nodup_map checked.names (Array.mem_toList_iff.mpr known) (Array.mem_toList_iff.mpr listed) same
  rw [Grammar.tokenType_eq_invalidType, table, mem_lexerTokenTable lexer]
  constructor
  · rintro ⟨special, absent⟩
    refine ⟨?_, special, fun declared => absent ⟨special, Or.inl declared⟩⟩
    by_contra plain
    exact absent ⟨special, Or.inr ⟨rule, listed, Bool.eq_false_iff.mpr plain, rfl⟩⟩
  · rintro ⟨fragment, special, undeclared⟩
    refine ⟨special, ?_⟩
    rintro ⟨_, declared | ⟨other, known, plain, same⟩⟩
    · exact undeclared declared
    · rw [own other known same, fragment] at plain
      cases plain

/-- Two rules of one type are the same rule. -/
theorem index_of_tokenType (checked : draft.grammar.Checked) {first second : Nat} {one other : Rule}
    (left : draft.grammar.rules[first]? = some one) (right : draft.grammar.rules[second]? = some other)
    (typed : draft.grammar.tokenType one.name ≠ invalidType)
    (same : draft.grammar.tokenType one.name = draft.grammar.tokenType other.name) : first = second := by
  have name := Grammar.tokenType_inj draft.nodup_tokenTable draft.endOfInput_notMem_tokenTable typed same
  have atLeft := (checked.ruleIndex?_eq left).mpr rfl
  rw [name, (checked.ruleIndex?_eq right).mpr rfl] at atLeft
  exact (Option.some.inj atLeft).symm

end Draft

end Types

/-- The rules of a lexer that emit no token are the fragments whose names stand for no token otherwise, and no two
others emit the same. -/
theorem Draft.run_ruleTypes (draft : Draft) (lookahead : Lookahead) (templates : Templates) (journal : Journal) :
    match draft.kind, draft.build with
    | .lexer, .ok grammar =>
        match ({ grammar, kind := .lexer, lookahead, templates } : Plan).run journal with
        | .error _ _ => True
        | .ok network _ =>
            network.ruleTokenTypes.length = grammar.rules.size ∧
            (∀ (index : Nat) (rule : Rule), grammar.rules[index]? = some rule →
              (network.ruleTokenTypes[index]? = some invalidType ↔
                rule.isFragment = true ∧ rule.name ≠ "EOF" ∧ rule.name ∉ draft.tokens)) ∧
            ∀ (first second : Nat) (one other : Rule), grammar.rules[first]? = some one →
              grammar.rules[second]? = some other → one.isFragment = false → other.isFragment = false →
              network.ruleTokenTypes[first]? = network.ruleTokenTypes[second]? → first = second
    | _, _ => True := by
  split
  · rename_i grammar lexer built
    split
    · trivial
    rename_i network after ends
    obtain ⟨others, parts, completion⟩ := Plan.completes_of_run ends
    have checked := checked_of_build built
    obtain ⟨_, _, rfl⟩ := build_eq_grammar built
    have types := (completion.dispatched rfl).types
    have entry : ∀ {index : Nat} {rule : Rule}, draft.grammar.rules[index]? = some rule →
        network.ruleTokenTypes[index]? = some (draft.grammar.tokenType rule.name) := by
      intro index rule listed
      rw [types, List.getElem?_map, Array.getElem?_toList, listed, Option.map_some]
    refine ⟨by rw [types, List.length_map, Array.length_toList], fun index rule listed => ?_, ?_⟩
    · rw [entry listed, Option.some.injEq]
      exact tokenType_rule lexer checked (Array.mem_of_getElem? listed)
    · intro first second one other left right plain _ same
      rw [entry left, entry right, Option.some.injEq] at same
      refine index_of_tokenType checked left right (fun none => ?_) same
      have fragment := ((tokenType_rule lexer checked (Array.mem_of_getElem? left)).mp none).1
      rw [plain] at fragment
      cases fragment
  · trivial

/-- A lexer with a fragment whose name is declared as a token. -/
def declaredFragment : Draft where
  kind := .lexer
  name := "L"
  tokens := ["D"]
  rules := [
    { name := "D", isFragment := true, alternatives := [{ elements := [⟨.charSet "[0-9]", none⟩] }] },
    { name := "A", alternatives := [{ elements := [⟨.token "D", none⟩] }] }]

-- The fragment has the type of the token.
set_option maxRecDepth 100000 in
theorem declaredFragment_typed :
    (declaredFragment.network?.map fun built => (built.1.rules.toList.map Rule.isFragment, built.2.1.ruleTokenTypes)) =
      some ([true, false], [1, 2]) := by
  decide +kernel

end GrammarNetwork
