import GrammarNetwork.Proofs.Labels

/-! Links: what leaves the ends of the rules of a network. In a parser the end of a rule leads back to where its
calls go on, one for each reference to the rule, or to the end of the input. In a lexer it leads nowhere. -/

namespace GrammarNetwork

/-- The state has a transition that calls the rule with this number. -/
def State.callsRule (index : Nat) (state : State) : Bool :=
  state.transitions.any fun transition => transition.label.callee? = some index

/-- The states that call a rule, in the order of their numbers. -/
def Network.callers (network : Network) (index : Nat) : List (StateId × State) :=
  network.liveStates.filter fun entry => entry.2.callsRule index

/-- The numbers of the rules that refer to a rule, each as often as it does. -/
def Grammar.referrers (grammar : Grammar) (name : String) : List Nat :=
  grammar.rules.toList.zipIdx.flatMap fun entry =>
    List.replicate (entry.1.references.count (.rule name)) entry.2

/-- What leaves the end of a rule that is called by these states: a way to the state after each call. -/
def returns (callers : List (StateId × State)) : List Transition :=
  callers.flatMap fun entry => entry.2.transitions.map fun transition => .silent transition.next

/-- How many of the labels call a rule. -/
def countCalls (index : Nat) (labels : List Label) : Nat :=
  labels.countP fun label => label.callee? = some index

@[simp] theorem countCalls_append (index : Nat) (first second : List Label) :
    countCalls index (first ++ second) = countCalls index first + countCalls index second :=
  List.countP_append

theorem State.callsRule_silent {rule : Option Nat} {kind : StateKind} {targets : List StateId}
    {decision : Option Nat} {nonGreedy : Bool} (index : Nat) :
    State.callsRule index ⟨rule, kind, targets.map .silent, decision, nonGreedy⟩ = false := by
  simp [State.callsRule, Label.callee?]

theorem Label.callee?_edge (starts : Array StateId) (label : Label) (next : StateId) :
    (label.edge starts next).label.callee? = label.callee? := by
  cases label <;> rfl

section Callers

variable {starts : Array StateId} {rule : Option Nat} {index : Nat}

/-- The states around the alternatives of a block call nothing. -/
theorem Frame.callsRule_states {start exit : StateId} {entries : List StateId} {next : Option StateId}
    (frame : Frame) : ∀ entry ∈ frame.states rule start exit entries next, entry.2.callsRule index = false := by
  intro entry member
  rcases List.mem_cons.mp member with rfl | later
  · exact State.callsRule_silent index
  rcases List.mem_cons.mp later with rfl | inLoop
  · exact State.callsRule_silent index
  · cases frame with
    | plain decision => cases inLoop
    | optional decision greedy => cases inLoop
    | star decision greedy entry loopBack loopEnd entryDecision =>
        simp only [Frame.loopStates, List.mem_cons, List.not_mem_nil, or_false] at inLoop
        rcases inLoop with rfl | rfl | rfl
        · exact State.callsRule_silent index
        · exact State.callsRule_silent index
        · simp [State.callsRule, Label.callee?]
    | plus decision greedy loopBack loopEnd loopDecision =>
        simp only [Frame.loopStates, List.mem_cons, List.not_mem_nil, or_false] at inLoop
        rcases inLoop with rfl | rfl
        · exact State.callsRule_silent index
        · exact State.callsRule_silent index

mutual

/-- What is laid out of a trail calls a rule as often as the labels of the trail do. -/
theorem Trail.length_callers : ∀ (trail : Trail) (next : StateId),
    ((trail.layout starts rule (some next)).filter fun entry => entry.2.callsRule index).length =
      countCalls index trail.labels
  | .done, next => rfl
  | .step source label rest, next => by
      have later := rest.length_callers next
      rw [Trail.layout, Trail.labels, List.filter_cons, countCalls, List.countP_cons, ← countCalls, ← later]
      cases known : rest.enter (some next) with
      | none => simp [Trail.enter] at known
      | some target =>
          by_cases calls : label.callee? = some index <;>
            simp [State.callsRule, Label.callee?_edge, calls]
  | .gap source rest, next => by
      have later := rest.length_callers next
      simpa [Trail.layout, Trail.labels, State.callsRule] using later
  | .block frame start exit ways rest, next => by
      have within := ways.length_callers exit
      have later := rest.length_callers next
      have around : ((frame.states rule start exit (ways.entries exit) (rest.enter (some next))).filter
          fun entry => entry.2.callsRule index) = [] := by
        simpa using frame.callsRule_states
      rw [Trail.layout, Trail.labels, List.filter_append, List.filter_append, around, List.nil_append,
        List.length_append, countCalls_append, within, later]

theorem Ways.length_callers : ∀ (ways : Ways) (exit : StateId),
    ((ways.layout starts rule exit).filter fun entry => entry.2.callsRule index).length =
      countCalls index ways.labels
  | .none, exit => rfl
  | .more way rest, exit => by
      have here := way.length_callers exit
      have later := rest.length_callers exit
      rw [Ways.layout, Ways.labels, List.filter_append, List.length_append, countCalls_append, here, later]

end

mutual

/-- A state that calls a rule does nothing else. -/
theorem Trail.caller_eq : ∀ (trail : Trail) {next : StateId}, ∀ entry ∈ trail.layout starts rule (some next),
    entry.2.callsRule index = true → ∃ level follow, entry.2 =
      { rule, kind := .basic, transitions := [⟨starts[index]?.getD 0, .call index level follow⟩] }
  | .step source label rest, next, entry, member, calls => by
      rcases List.mem_cons.mp member with rfl | later
      · cases known : rest.enter (some next) with
        | none => simp [Trail.enter] at known
        | some target =>
            cases label with
            | call callee level follow =>
                have same : callee = index := by
                  simpa [State.callsRule, known, Label.edge, Label.callee?] using calls
                subst same
                exact ⟨level, target, by simp [Label.edge]⟩
            | _ => simp [State.callsRule, known, Label.edge, Label.callee?] at calls
      · exact rest.caller_eq entry later calls
  | .gap source rest, next, entry, member, calls => by
      rcases List.mem_cons.mp member with rfl | later
      · simp [State.callsRule] at calls
      · exact rest.caller_eq entry later calls
  | .block frame start exit ways rest, next, entry, member, calls => by
      rcases List.mem_append.mp member with around | inside
      · rw [frame.callsRule_states entry around] at calls
        cases calls
      · rcases List.mem_append.mp inside with within | later
        · exact ways.caller_eq entry within calls
        · exact rest.caller_eq entry later calls

theorem Ways.caller_eq : ∀ (ways : Ways) {exit : StateId}, ∀ entry ∈ ways.layout starts rule exit,
    entry.2.callsRule index = true → ∃ level follow, entry.2 =
      { rule, kind := .basic, transitions := [⟨starts[index]?.getD 0, .call index level follow⟩] }
  | .more way rest, exit, entry, member, calls => by
      rcases List.mem_append.mp member with here | later
      · exact way.caller_eq entry here calls
      · exact rest.caller_eq entry later calls

end

end Callers

theorem RulePart.callers_heap {starts : Array StateId} {part : RulePart} {number index : Nat}
    (exits : ∀ transition ∈ part.exits, transition.label.isCall = false) :
    (part.heap starts number).filter (fun entry => entry.2.callsRule index) =
      (part.body.layout starts (some number) (some part.stop)).filter fun entry => entry.2.callsRule index := by
  have silent : State.callsRule index
      { rule := some number, kind := .ruleStop, transitions := part.exits } = false := by
    refine List.any_eq_false.mpr fun transition listed => ?_
    have plain := exits transition listed
    cases known : transition.label <;> simp_all [Label.callee?, Label.isCall]
  rw [RulePart.heap, List.filter_cons, List.filter_cons, silent, State.callsRule_silent]
  rfl

theorem RulePart.callers_heaps {starts : Array StateId} {index : Nat} : ∀ {parts : List RulePart} {first : Nat},
    (∀ part ∈ parts, ∀ transition ∈ part.exits, transition.label.isCall = false) →
    ((RulePart.heaps starts first parts).filter fun entry => entry.2.callsRule index).map (·.2.rule) =
      (parts.zipIdx first).flatMap fun entry =>
        List.replicate (countCalls index entry.1.body.labels) (some entry.2)
  | [], first, exits => rfl
  | part :: parts, first, exits => by
      rw [List.forall_mem_cons] at exits
      have here : ((part.heap starts first).filter fun entry => entry.2.callsRule index).map (·.2.rule) =
          List.replicate (countCalls index part.body.labels) (some first) := by
        refine List.eq_replicate_iff.mpr ⟨?_, ?_⟩
        · rw [List.length_map, callers_heap exits.1, Trail.length_callers]
        · intro rule member
          obtain ⟨entry, listed, rfl⟩ := List.mem_map.mp member
          exact RulePart.rule_heap entry (List.mem_of_mem_filter listed)
      rw [RulePart.heaps, List.filter_append, List.map_append, here, callers_heaps exits.2, List.zipIdx_cons,
        List.flatMap_cons]

theorem Network.pairwise_liveStates (network : Network) :
    network.liveStates.Pairwise fun first second => first.1 < second.1 := by
  have slots : network.states.toList.zipIdx.Pairwise fun first second => first.2 < second.2 := by
    have numbers := List.pairwise_lt_range' (s := 0) (n := network.states.toList.length)
    rwa [← List.zipIdx_map_snd, List.pairwise_map] at numbers
  refine List.pairwise_filterMap.mpr (slots.imp ?_)
  intro first second less entry made other found
  obtain ⟨_, _, rfl⟩ := Option.map_eq_some_iff.mp made
  obtain ⟨_, _, rfl⟩ := Option.map_eq_some_iff.mp found
  exact less

/-- A state calls the rule with this number and does nothing else. -/
def State.IsCall (index : Nat) (state : State) : Prop :=
  ∃ rule target level follow, state = { rule, kind := .basic, transitions := [⟨target, .call index level follow⟩] }

theorem State.followLinks_call? {index : Nat} {state : State}
    (shape : state.callsRule index = true → state.IsCall index) :
    followLinks state.call?.toList index =
      if state.callsRule index then state.transitions.map fun transition => .silent transition.next else [] := by
  cases calls : state.callsRule index with
  | true =>
      obtain ⟨rule, target, level, follow, rfl⟩ := shape calls
      simp [State.call?, followLinks, Transition.next]
  | false =>
      have other : ∀ found, state.call? = some found → found.1 ≠ index := by
        rintro found known rfl
        unfold State.call? at known
        split at known
        · rename_i only
          cases known
          simp [State.callsRule, only, Label.callee?] at calls
        · cases known
      cases known : state.call? with
      | none => rfl
      | some found => simp [followLinks, other found known]

namespace Network.Houses

variable {network : Network} {others : Heap} {parts : List RulePart}

theorem plain_exits (houses : network.Houses others parts) :
    ∀ part ∈ parts, ∀ transition ∈ part.exits, transition.label.isCall = false :=
  fun part listed transition leaves => (houses.exits part listed transition leaves).1

theorem callsRule_other (houses : network.Houses others parts) (index : Nat) :
    ∀ entry ∈ others, entry.2.callsRule index = false := by
  intro entry member
  refine List.any_eq_false.mpr fun transition listed => ?_
  obtain ⟨start, _, rfl⟩ := (houses.neutral entry member).transitions transition listed
  simp [Label.callee?]

theorem caller_eq (houses : network.Houses others parts) {index : Nat} {entry : StateId × State}
    (member : entry ∈ network.callers index) : entry.2.IsCall index := by
  obtain ⟨listed, calls⟩ := List.mem_filter.mp member
  rcases houses.mem_of_state? (network.mem_liveStates.mp listed) with outside | ⟨number, part, found, inside⟩
  · rw [houses.callsRule_other index _ outside] at calls
    cases calls
  · have within : entry ∈ (part.heap network.ruleStarts number).filter fun entry => entry.2.callsRule index :=
      List.mem_filter.mpr ⟨inside, calls⟩
    rw [RulePart.callers_heap (houses.plain_exits part (List.mem_of_getElem? found))] at within
    obtain ⟨level, follow, same⟩ := part.body.caller_eq _ (List.mem_of_mem_filter within) calls
    exact ⟨_, _, level, follow, same⟩

/-- The rules of the states that call a rule, each as often as its labels do. -/
theorem callers_perm (houses : network.Houses others parts) (index : Nat) :
    ((network.callers index).map (·.2.rule)).Perm (parts.zipIdx.flatMap fun entry =>
      List.replicate (countCalls index entry.1.body.labels) (some entry.2)) := by
  have whole := (houses.liveStates_perm.filter fun entry => entry.2.callsRule index).map (·.2.rule)
  have outside : others.filter (fun entry => entry.2.callsRule index) = [] := by
    simpa using houses.callsRule_other index
  rwa [List.filter_append, outside, List.nil_append, RulePart.callers_heaps houses.plain_exits] at whole

/-- The ways back to the calls of a rule lead on from the states that call it. -/
theorem followLinks_calls (houses : network.Houses others parts) (index : Nat) :
    followLinks network.calls index = returns (network.callers index) := by
  have links : followLinks network.calls index = network.liveStates.flatMap fun entry =>
      followLinks entry.2.call?.toList index := by
    simp only [followLinks, Network.calls, List.filterMap_eq_flatMap_toList, List.filter_flatMap, List.map_flatMap]
  have back : returns (network.callers index) = network.liveStates.flatMap fun entry =>
      if entry.2.callsRule index then entry.2.transitions.map fun transition => .silent transition.next else [] := by
    rw [returns, Network.callers]
    induction network.liveStates with
    | nil => rfl
    | cons entry rest ih =>
        rw [List.filter_cons, List.flatMap_cons, ← ih]
        split <;> rfl
  rw [links, back]
  refine List.flatMap_congr fun entry listed => State.followLinks_call? fun calls => ?_
  exact houses.caller_eq (List.mem_filter.mpr ⟨listed, calls⟩)

end Network.Houses

theorem countCalls_perm {first second : List Label} (same : first.Perm second) (index : Nat) :
    countCalls index first = countCalls index second :=
  same.countP_eq _

@[simp] theorem countCalls_marks (index : Nat) (labels : List Label) :
    countCalls index (marks labels) = countCalls index labels := by
  rw [countCalls, marks, List.countP_filter, List.countP_map]
  refine List.countP_congr fun label _ => ?_
  cases label <;> simp [Label.erase, Label.callee?]

theorem countCalls_of_isPredicate {labels : List Label}
    (predicates : ∀ label ∈ labels, label.isPredicate = true) (index : Nat) : countCalls index labels = 0 := by
  refine List.countP_eq_zero.mpr fun label listed => ?_
  have predicate := predicates label listed
  cases label <;> simp_all [Label.isPredicate, Label.callee?]

section References

variable {plan : Plan} {number index : Nat} {name : String}

theorem countCalls_leaf (parser : plan.kind = .parser)
    (known : ∀ other, plan.grammar.ruleIndex? other = some index ↔ name = other) {element : Element}
    (leaf : element.block? = none) :
    countCalls index (((plan.leaf? number element).map Leaf.labels).getD []) =
      (element.reference?.toList).count (.rule name) := by
  obtain ⟨form, position⟩ := element
  unfold Plan.leaf?
  rw [parser]
  cases form with
  | block body => cases leaf
  | rule other precedence =>
      have resolves := known other
      have counted : List.count (Reference.rule name) [.rule other] = if name = other then 1 else 0 := by
        by_cases same : name = other <;> simp [same, eq_comm]
      simp only [Plan.parserLeaf?, Plan.callLeaf?, Element.reference?, Option.toList_some, counted]
      cases found : plan.grammar.ruleIndex? other with
      | none =>
          rw [found] at resolves
          rw [if_neg fun same => Option.some_ne_none index (resolves.mpr same).symm]
          rfl
      | some callee =>
          rw [found, Option.some.injEq] at resolves
          simp only [Option.map_some, Option.getD_some, Leaf.labels, countCalls_marks]
          by_cases same : callee = index
          · rw [if_pos (resolves.mp same)]
            simp [countCalls, Label.callee?, same]
          · rw [if_neg fun equal => same (resolves.mpr equal)]
            simp [countCalls, Label.callee?, same]
  | predicate code place precedence => cases precedence <;> rfl
  | set items inverted => cases inverted <;> rfl
  | _ => rfl

mutual

theorem countCalls_element (parser : plan.kind = .parser)
    (known : ∀ other, plan.grammar.ruleIndex? other = some index ↔ name = other) : ∀ (element : Element),
    countCalls index (plan.elementLabels number element) =
      (element.parts.filterMap Element.reference?).count (.rule name)
  | ⟨.block ⟨alternatives, suffix⟩, position⟩ => by
      rw [Plan.elementLabels, countCalls_alternatives parser known alternatives, Element.parts,
        List.filterMap_append, List.count_append]
      rfl
  | ⟨.token _, position⟩ | ⟨.rule _ _, position⟩ | ⟨.literal _, position⟩
  | ⟨.charSet _, position⟩ | ⟨.range _ _, position⟩ | ⟨.set _ _, position⟩
  | ⟨.wildcard, position⟩ | ⟨.action _ _, position⟩ | ⟨.predicate _ _ _, position⟩ => by
      exact countCalls_leaf parser known rfl

theorem countCalls_list (parser : plan.kind = .parser)
    (known : ∀ other, plan.grammar.ruleIndex? other = some index ↔ name = other) : ∀ (elements : List Element),
    countCalls index (plan.listLabels number elements) =
      ((listParts elements).filterMap Element.reference?).count (.rule name)
  | [] => rfl
  | first :: rest => by
      rw [Plan.listLabels, countCalls_append, countCalls_element parser known first,
        countCalls_list parser known rest, listParts, List.filterMap_append, List.count_append]

theorem countCalls_alternatives (parser : plan.kind = .parser)
    (known : ∀ other, plan.grammar.ruleIndex? other = some index ↔ name = other) :
    ∀ (alternatives : List Alternative), countCalls index (plan.alternativeLabels number alternatives) =
      ((alternativeParts alternatives).filterMap Element.reference?).count (.rule name)
  | [] => rfl
  | ⟨elements, commands⟩ :: rest => by
      have silent : ∀ written : List Command, countCalls index (plan.commandLabels number written) = 0 := by
        intro written
        induction written with
        | nil => rfl
        | cons command written ih => simp [Plan.commandLabels, Plan.commandLabel?, parser, ih]
      rw [Plan.alternativeLabels, countCalls_append, countCalls_append, silent, countCalls_list parser known elements,
        countCalls_alternatives parser known rest, alternativeParts, List.filterMap_append, List.count_append]
      rfl

end

theorem RulePart.Draws.countCalls {part : RulePart} {caller : Rule} (draws : part.Draws plan (caller, number))
    (parser : plan.kind = .parser) (known : ∀ other, plan.grammar.ruleIndex? other = some index ↔ name = other) :
    countCalls index part.body.labels = caller.references.count (.rule name) := by
  have drawn := countCalls_perm (marks_sketchBody draws.body) index
  have lost : GrammarNetwork.countCalls index (plan.bodyLosses number caller.body) = 0 :=
    countCalls_of_isPredicate Plan.isPredicate_of_ruleLosses index
  rw [countCalls_append, Trail.labels_erase, marks_map_erase, countCalls_marks, lost, Nat.add_zero] at drawn
  exact drawn.trans (countCalls_alternatives parser known caller.alternatives)

theorem RulePart.calls_of_draws (parser : plan.kind = .parser)
    (known : ∀ other, plan.grammar.ruleIndex? other = some index ↔ name = other) :
    ∀ {rules : List Rule} {parts : List RulePart} {first : Nat},
    List.Forall₂ (RulePart.Draws plan) parts (rules.zipIdx first) →
    ((parts.zipIdx first).flatMap fun entry => List.replicate (countCalls index entry.1.body.labels) (some entry.2)) =
      ((rules.zipIdx first).flatMap fun entry =>
        List.replicate (entry.1.references.count (.rule name)) entry.2).map some
  | [], _, _, .nil => rfl
  | rule :: rules, part :: parts, first, .cons draws rest => by
      rw [List.zipIdx_cons, List.zipIdx_cons, List.flatMap_cons, List.flatMap_cons, List.map_append,
        List.map_replicate, draws.countCalls parser known, calls_of_draws parser known rest]

end References

/-- The states that call a rule stand for the references to it. -/
theorem Plan.Makes.callers_perm {plan : Plan} {network : Network} {others : Heap} {parts : List RulePart}
    (makes : plan.Makes network others parts) (checked : plan.grammar.Checked) (parser : plan.kind = .parser)
    {index : Nat} {rule : Rule} (listed : plan.grammar.rules[index]? = some rule) :
    ((network.callers index).map (·.2.rule)).Perm ((plan.grammar.referrers rule.name).map some) :=
  (makes.houses.callers_perm index).trans
    (.of_eq (RulePart.calls_of_draws parser (fun _ => checked.ruleIndex?_eq listed) makes.draws))

/-- In the network of a parser every reference to a rule is a state of its own that calls the rule, and nothing
else calls it. The end of the rule leads to where these calls go on, in the order of the states, and when there are
none to the end of the input, at a state that all such rules share and that leads nowhere. In the network of
a lexer the ends of the rules lead nowhere. -/
theorem Plan.run_links (plan : Plan) (journal : Journal) {draft : Draft} (built : draft.build = .ok plan.grammar) :
    match plan.run journal with
    | .ok network _ =>
        match plan.kind with
        | .parser => ∃ sink, network.state? sink = some { rule := none, kind := .basic, transitions := [] } ∧
            ∀ index rule, plan.grammar.rules[index]? = some rule →
              ((network.callers index).map (·.2.rule)).Perm ((plan.grammar.referrers rule.name).map some) ∧
              ((network.callers index).Pairwise fun first second => first.1 < second.1) ∧
              (∀ entry ∈ network.callers index, entry.2.IsCall index) ∧
              ∃ stop, network.ruleStops[index]? = some stop ∧
                (network.state? stop).map State.transitions = some
                  (if network.callers index = [] then [⟨sink, .atom endOfInput⟩] else returns (network.callers index))
        | .lexer => ∀ id state, network.state? id = some state → state.kind = .ruleStop → state.transitions = []
    | .error _ _ => True := by
  split
  · rename_i network after ends
    obtain ⟨others, parts, makes, _, _, linked⟩ := completes_of_run ends
    have houses := makes.houses
    unfold Build.Linked at linked
    cases kind : plan.kind with
    | parser =>
        rw [kind] at linked
        obtain ⟨sink, rfl, exits⟩ := linked
        refine ⟨sink, houses.state?_other List.mem_cons_self, fun index rule listed => ?_⟩
        obtain ⟨part, found, _⟩ := makes.part_of_rule listed
        refine ⟨makes.callers_perm (Draft.checked_of_build built) kind listed,
          network.pairwise_liveStates.filter _, fun entry => houses.caller_eq, part.stop, ?_, ?_⟩
        · rw [houses.ruleStops_getElem?, found, Option.map_some]
        · rw [houses.state?_stop found, Option.map_some, exits index part found, ruleExits,
            houses.followLinks_calls]
          -- The end of the input is only where no call goes on, and every caller is a call that goes on somewhere.
          by_cases alone : network.callers index = []
          · simp [alone, returns]
          · obtain ⟨entry, member⟩ := List.exists_mem_of_ne_nil _ alone
            obtain ⟨_, _, _, _, call⟩ := houses.caller_eq member
            have some : returns (network.callers index) ≠ [] := fun none => by
              simpa [call] using List.flatMap_eq_nil_iff.mp none entry member
            simp [alone, some]
    | lexer =>
        rw [kind] at linked
        intro id state found stop
        rcases houses.mem_of_state? found with outside | ⟨index, part, known, inside⟩
        · rcases (houses.neutral _ outside).kind with kind | kind <;> rw [kind] at stop <;> cases stop
        · simp only [RulePart.heap, List.mem_cons, Prod.mk.injEq] at inside
          rcases inside with ⟨_, rfl⟩ | ⟨_, rfl⟩ | within
          · cases stop
          · exact linked part (List.mem_of_getElem? known)
          · exact absurd stop (Trail.isInner_layout _ _ within).2
  · trivial

/-- `a : b b ; b : X ;` -/
def twoCalls : Draft where
  kind := .parser
  name := "P"
  rules := [
    { name := "a", alternatives := [{ elements := [⟨.rule "b" none, none⟩, ⟨.rule "b" none, none⟩] }] },
    { name := "b", alternatives := [{ elements := [⟨.token "X", none⟩] }] }]

def twoCallsPlan : Plan where
  grammar :=
    { kind := .parser
      name := "P"
      fileName := "P.g4"
      caseInsensitive := false
      rules := #[
        { name := "a", alternatives := [{ elements := [⟨.rule "b" none, none⟩, ⟨.rule "b" none, none⟩] }] },
        { name := "b", alternatives := [{ elements := [⟨.token "X", none⟩] }] }]
      tokens := ["X"]
      channels := []
      modes := [defaultModeName]
      actionCount := 0 }
  kind := .parser

theorem twoCalls_callers : twoCalls.build = .ok twoCallsPlan.grammar ∧
    match twoCallsPlan.run {} with
    | .ok network _ => (network.callers 1).length = 2
    | .error _ _ => False := by
  refine ⟨rfl, ?_⟩
  have links := twoCallsPlan.run_links {} (rfl : twoCalls.build = _)
  have built : twoCallsPlan.failure? {} = none := by decide +kernel
  have refers : (twoCallsPlan.grammar.referrers "b").length = 2 := by decide +kernel
  unfold Plan.failure? at built
  cases ends : twoCallsPlan.run {} with
  | ok network after =>
      rw [ends] at links
      obtain ⟨sink, _, exits⟩ := links
      have count := (exits 1 _ rfl).1.length_eq
      rw [List.length_map, List.length_map] at count
      exact count.trans refers
  | error failure after =>
      rw [ends] at built
      cases built

end GrammarNetwork
