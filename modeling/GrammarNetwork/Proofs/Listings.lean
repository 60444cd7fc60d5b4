import GrammarNetwork.Network.Listing
import GrammarNetwork.Proofs.Closed
import GrammarNetwork.Proofs.Links
import GrammarNetwork.Proofs.Reachability
import GrammarNetwork.Proofs.Trim

/-! Listings: what is printed from the start of a rule is the rule, each of its transitions in one line. -/

namespace GrammarNetwork

namespace Network

/-! ### The lines of the end of a rule -/

theorem distinctTargets_sublist (seen : List StateId) (transitions : List Transition) :
    (distinctTargets seen transitions).Sublist transitions := by
  induction transitions generalizing seen with
  | nil => exact .slnil
  | cons transition rest ih =>
    rw [distinctTargets]
    split
    · exact (ih seen).cons transition
    · exact (ih (transition.target :: seen)).cons_cons transition

theorem mem_map_distinctTargets {seen : List StateId} {transitions : List Transition} {target : StateId} :
    target ∈ (distinctTargets seen transitions).map Transition.target ↔
      target ∉ seen ∧ target ∈ transitions.map Transition.target := by
  induction transitions generalizing seen with
  | nil => simp [distinctTargets]
  | cons transition rest ih =>
    rw [distinctTargets]
    by_cases known : transition.target ∈ seen
    · rw [if_pos known, ih, List.map_cons, List.mem_cons]
      refine and_congr_right fun fresh => ⟨.inr, fun listed => listed.resolve_left fun same => ?_⟩
      exact fresh (same ▸ known)
    · rw [if_neg known, List.map_cons, List.map_cons, List.mem_cons, List.mem_cons, ih, List.mem_cons]
      by_cases same : target = transition.target
      · simp [same, known]
      · simp [same]

theorem nodup_map_distinctTargets (seen : List StateId) (transitions : List Transition) :
    ((distinctTargets seen transitions).map Transition.target).Nodup := by
  induction transitions generalizing seen with
  | nil => exact .nil
  | cons transition rest ih =>
    rw [distinctTargets]
    split
    · exact ih seen
    · refine List.nodup_cons.2 ⟨fun again => ?_, ih _⟩
      exact (mem_map_distinctTargets.1 again).1 List.mem_cons_self

/-! ### The states of a listing -/

theorem StaysIn.next {network : Network} {index : Nat} {transition : Transition}
    (stays : network.StaysIn index transition) : network.isInRule (some index) transition.next = true := by
  obtain ⟨target, label⟩ := transition
  cases label with
  | call => exact stays.2
  | _ => exact stays

theorem reached_of_crosses {network : Network} {index : Nat} {start id : StateId}
    (crosses : network.Crosses index start id) (live : network.isLive id = true) :
    network.Reached (fun state target => target ∈ listedSuccessors state) start id := by
  induction crosses with
  | refl => exact .start live
  | tail _ steps ih =>
    obtain ⟨state, found, _, inner, transition, leaves, rfl⟩ := steps
    refine .step (ih (network.isLive_iff.mpr ⟨state, found⟩)) found ?_ live
    rw [listedSuccessors, if_neg inner]
    exact List.mem_map_of_mem leaves

namespace Houses

variable {network : Network} {others : Heap} {parts : List RulePart} {part : RulePart} {index : Nat}

theorem isInRule_of_reached (houses : network.Houses others parts) (found : parts[index]? = some part)
    {id : StateId} (reached : network.Reached (fun state target => target ∈ listedSuccessors state) part.start id) :
    network.isInRule (some index) id = true := by
  induction reached with
  | start => exact isInRule_iff.mpr ⟨_, houses.state?_start found, rfl⟩
  | @step id target state _ known leads _ inside =>
    obtain ⟨same, member, rule⟩ := isInRule_iff.mp inside
    obtain rfl : same = state := Option.some.inj (member.symm.trans known)
    by_cases ends : same.kind = .ruleStop
    · rw [listedSuccessors, if_pos ends] at leads
      cases leads
    · rw [listedSuccessors, if_neg ends, List.mem_map] at leads
      obtain ⟨transition, leaves, rfl⟩ := leads
      have inner : network.ruleStops[index]? ≠ some id := fun stops => by
        rw [houses.ruleStops_getElem?, found, Option.map_some, Option.some.injEq] at stops
        rw [← stops, houses.state?_stop found] at known
        cases known
        exact ends rfl
      exact (houses.closed.rules id same index known rule inner transition leaves).next

/-- A listing that begins at the start of a rule visits the states of the rule. -/
theorem mem_listed (houses : network.Houses others parts) (trim : network.Trim) (found : parts[index]? = some part)
    {id : StateId} :
    id ∈ network.breadthFirst listedSuccessors part.start ↔ network.isInRule (some index) id = true := by
  rw [mem_breadthFirst]
  refine ⟨houses.isInRule_of_reached found, fun inside => ?_⟩
  obtain ⟨state, known, rule⟩ := isInRule_iff.mp inside
  obtain ⟨start, _, starts, _, crosses, _⟩ := trim id state index known rule
  rw [houses.ruleStarts_getElem?, found, Option.map_some, Option.some.injEq] at starts
  exact reached_of_crosses (starts ▸ crosses) (network.isLive_iff.mpr ⟨state, known⟩)

/-- A state of a rule comes before its end or is its end. -/
theorem isInner_or_stop (houses : network.Houses others parts) (found : parts[index]? = some part)
    {id : StateId} {state : State} (known : network.state? id = some state) (same : state.rule = some index) :
    state.IsInner (some index) ∨ id = part.stop := by
  rcases houses.mem_of_state? known with outside | ⟨number, other, listed, inside⟩
  · rw [(houses.neutral _ outside).rule] at same
    cases same
  · simp only [RulePart.heap, List.mem_cons, Prod.mk.injEq] at inside
    rcases inside with ⟨_, rfl⟩ | ⟨rfl, rfl⟩ | within
    · exact .inl ⟨same, by simp⟩
    · obtain rfl : number = index := Option.some.inj same
      obtain rfl : other = part := Option.some.inj (listed.symm.trans found)
      exact .inr rfl
    · exact .inl ⟨same, (Trail.isInner_layout _ _ within).2⟩

end Houses

/-- The states of a rule before its end. -/
def innerStates (network : Network) (index : Nat) : List (StateId × State) :=
  network.liveStates.filter fun entry => entry.2.IsInner (some index)

theorem mem_innerStates {network : Network} {index : Nat} {entry : StateId × State} :
    entry ∈ network.innerStates index ↔ network.state? entry.1 = some entry.2 ∧ entry.2.IsInner (some index) := by
  rw [innerStates, List.mem_filter, mem_liveStates, decide_eq_true_eq]

theorem nodup_innerStates (network : Network) (index : Nat) : ((network.innerStates index).map Prod.fst).Nodup := by
  have ordered : (network.innerStates index).Pairwise fun first second => first.1 < second.1 :=
    network.pairwise_liveStates.filter _
  exact List.pairwise_map.mpr (ordered.imp Nat.ne_of_lt)

namespace Houses

variable {network : Network} {others : Heap} {parts : List RulePart} {part : RulePart} {index : Nat}

/-- A listing visits the states of the rule before its end, and its end. -/
theorem listed_perm (houses : network.Houses others parts) (trim : network.Trim) (found : parts[index]? = some part) :
    (network.breadthFirst listedSuccessors part.start).Perm ((network.innerStates index).map Prod.fst ++ [part.stop]) := by
  have atStop := houses.state?_stop found
  have apart : part.stop ∉ (network.innerStates index).map Prod.fst := fun listed => by
    obtain ⟨⟨id, state⟩, member, rfl⟩ := List.mem_map.mp listed
    obtain ⟨known, inner⟩ := mem_innerStates.mp member
    cases known.symm.trans atStop
    exact inner.2 rfl
  have unique : ((network.innerStates index).map Prod.fst ++ [part.stop]).Nodup :=
    (network.nodup_innerStates index).append (List.nodup_singleton _) (List.disjoint_singleton.mpr apart)
  refine (List.perm_ext_iff_of_nodup (breadthFirst_nodup _ _ _) unique).mpr fun id => ?_
  rw [houses.mem_listed trim found, isInRule_iff, List.mem_append, List.mem_singleton, List.mem_map]
  constructor
  · rintro ⟨state, known, same⟩
    rcases houses.isInner_or_stop found known same with inner | ends
    · exact .inl ⟨(id, state), mem_innerStates.mpr ⟨known, inner⟩, rfl⟩
    · exact .inr ends
  · rintro (⟨⟨id, state⟩, member, rfl⟩ | rfl)
    · obtain ⟨known, inner⟩ := mem_innerStates.mp member
      exact ⟨state, known, inner.1⟩
    · exact ⟨_, atStop, rfl⟩

/-- The lines of a listing are those of the states of the rule before its end and those of its end. -/
theorem listingLines_perm (houses : network.Houses others parts) (trim : network.Trim)
    (found : parts[index]? = some part) (grammar : Grammar) :
    (network.listingLines grammar part.start).Perm
      ((network.innerStates index).flatMap (fun entry =>
          entry.2.transitions.map (network.transitionLine grammar entry.1)) ++
        (distinctTargets [] part.exits).map (network.transitionLine grammar part.stop)) := by
  refine ((houses.listed_perm trim found).flatMap_right _).trans ?_
  rw [List.flatMap_append, List.flatMap_singleton, List.flatMap_map, houses.state?_stop found]
  refine .append (.of_eq (List.flatMap_congr fun entry member => ?_)) (.of_eq ?_)
  · obtain ⟨known, inner⟩ := mem_innerStates.mp member
    rw [known]
    simp only [listedTransitions, if_neg inner.2]
  · simp [listedTransitions]

end Houses

end Network

/-- What is printed from the start of a rule has a line for each transition of each state of the rule before its
end, a line for each target of the transitions at its end, and no other line. -/
theorem Plan.run_listing (plan : Plan) (journal : Journal) :
    match plan.run journal with
    | .ok network after => plan.kind = .parser ∨ after.journal.flaws = journal.flaws →
        ∀ (grammar : Grammar) (index : Nat) (start : StateId), network.ruleStarts[index]? = some start →
          ∃ (stop : StateId) (last : State) (exits : List Transition) (lines : List String),
            network.ruleStops[index]? = some stop ∧ network.state? stop = some last ∧
            exits.Sublist last.transitions ∧ (exits.map Transition.target).Nodup ∧
            (∀ target, target ∈ exits.map Transition.target ↔ target ∈ last.transitions.map Transition.target) ∧
            lines.Perm
              ((network.innerStates index).flatMap (fun entry =>
                  entry.2.transitions.map (network.transitionLine grammar entry.1)) ++
                exits.map (network.transitionLine grammar stop)) ∧
            network.listing grammar start = String.join (lines.map (· ++ "\n"))
    | .error _ _ => True := by
  split
  · rename_i network after ends
    intro sound grammar index start starts
    have trim := trim_of_run ends sound
    obtain ⟨others, parts, makes, _⟩ := completes_of_run ends
    have houses := makes.houses
    rw [houses.ruleStarts_getElem?, Option.map_eq_some_iff] at starts
    obtain ⟨part, found, rfl⟩ := starts
    refine ⟨part.stop, _, Network.distinctTargets [] part.exits, _, ?_, houses.state?_stop found,
      Network.distinctTargets_sublist _ _, Network.nodup_map_distinctTargets _ _,
      fun target => Network.mem_map_distinctTargets.trans (by simp), houses.listingLines_perm trim found grammar, rfl⟩
    rw [houses.ruleStops_getElem?, found, Option.map_some]
  · trivial

end GrammarNetwork
