import Mathlib.Logic.Relation
import GrammarNetwork.Proofs.Failures

/-! Trim networks: every state of a rule lies on a way from the start of the rule to its end. Only a range
without characters leaves a gap, and it is reported. -/

namespace GrammarNetwork

namespace Network

variable (network : Network) (index : Nat)

/-- One step inside a rule, from a state before its end. A call is stepped over. -/
def StepsIn (source target : StateId) : Prop :=
  ∃ state, network.state? source = some state ∧ state.rule = some index ∧ state.kind ≠ .ruleStop ∧
    ∃ transition ∈ state.transitions, transition.next = target

/-- There is a way from one state to the other that does not leave the rule. -/
abbrev Crosses : StateId → StateId → Prop :=
  Relation.ReflTransGen (network.StepsIn index)

end Network

section Crossing

variable {network : Network} {index : Nat} {starts : Array StateId}

theorem Network.crosses_silent {source target : StateId} {state : State} (found : network.state? source = some state)
    (same : state.rule = some index) (inner : state.kind ≠ .ruleStop) (leaves : .silent target ∈ state.transitions) :
    network.Crosses index source target :=
  .single ⟨state, found, same, inner, _, leaves, rfl⟩

/-- The states around the alternatives lie between where the block is entered and where it is left, if there is
a way through an alternative. -/
theorem Frame.crosses {frame : Frame} {start exit next : StateId} {entries : List StateId}
    (holds : network.Holds (frame.states (some index) start exit entries (some next)))
    (through : network.Crosses index start exit) : ∀ id ∈ start :: exit :: frame.loopIds,
      network.Crosses index (frame.entry start) id ∧ network.Crosses index id next := by
  have leaves : ∀ target ∈ frame.exitTargets (some next), network.Crosses index exit target := fun target listed =>
    network.crosses_silent holds.exitState rfl (by simp [exitState]) (List.mem_map_of_mem listed)
  have inLoop := (Network.holds_cons.mp (Network.holds_cons.mp holds).2).2
  cases frame with
  | plain decision | optional decision greedy =>
      have last := leaves next (by simp [exitTargets])
      simp only [loopIds, List.mem_cons, List.not_mem_nil, or_false]
      rintro id (rfl | rfl)
      · exact ⟨.refl, through.trans last⟩
      · exact ⟨through, last⟩
  | star decision greedy entry loopBack loopEnd entryDecision =>
      simp only [loopStates, Network.holds_cons] at inLoop
      obtain ⟨atEntry, atEnd, atBack, _⟩ := inLoop
      have enters : network.Crosses index entry start :=
        network.crosses_silent atEntry rfl (by simp) (by cases greedy <;> simp [forkTargets])
      have skips : network.Crosses index entry loopEnd :=
        network.crosses_silent atEntry rfl (by simp) (by cases greedy <;> simp [forkTargets])
      have last : network.Crosses index loopEnd next := network.crosses_silent atEnd rfl (by simp) (by simp)
      have back : network.Crosses index loopBack entry := network.crosses_silent atBack rfl (by simp) (by simp)
      have turns : network.Crosses index exit loopBack := leaves loopBack (by simp [exitTargets])
      have out := skips.trans last
      simp only [loopIds, List.mem_cons, List.not_mem_nil, or_false, Frame.entry]
      rintro id (rfl | rfl | rfl | rfl | rfl)
      · exact ⟨enters, through.trans (turns.trans (back.trans out))⟩
      · exact ⟨enters.trans through, turns.trans (back.trans out)⟩
      · exact ⟨.refl, out⟩
      · exact ⟨skips, last⟩
      · exact ⟨enters.trans (through.trans turns), back.trans out⟩
  | plus decision greedy loopBack loopEnd loopDecision =>
      simp only [loopStates, Network.holds_cons] at inLoop
      obtain ⟨atBack, atEnd, _⟩ := inLoop
      have ends : network.Crosses index loopBack loopEnd :=
        network.crosses_silent atBack rfl (by simp) (by cases greedy <;> simp [forkTargets])
      have last : network.Crosses index loopEnd next := network.crosses_silent atEnd rfl (by simp) (by simp)
      have turns : network.Crosses index exit loopBack := leaves loopBack (by simp [exitTargets])
      simp only [loopIds, List.mem_cons, List.not_mem_nil, or_false, Frame.entry]
      rintro id (rfl | rfl | rfl | rfl)
      · exact ⟨.refl, through.trans (turns.trans (ends.trans last))⟩
      · exact ⟨through, turns.trans (ends.trans last)⟩
      · exact ⟨through.trans turns, ends.trans last⟩
      · exact ⟨through.trans (turns.trans ends), last⟩

theorem Frame.crosses_entries {frame : Frame} {start exit entry : StateId} {next : Option StateId}
    {entries : List StateId} (holds : network.Holds (frame.states (some index) start exit entries next))
    (listed : entry ∈ entries) : network.Crosses index start entry :=
  network.crosses_silent holds.startState rfl (by simp [startState])
    (List.mem_map_of_mem (Frame.mem_startTargets listed))

mutual

/-- Every state of a trail without gaps lies between its first state and what comes after it. -/
theorem Trail.crosses : ∀ (trail : Trail) {next : StateId}, trail.Filled → trail.gaps = 0 →
    network.Holds (trail.layout starts (some index) (some next)) →
    network.Crosses index ((trail.first?).getD next) next ∧ ∀ id ∈ trail.ids,
      network.Crosses index ((trail.first?).getD next) id ∧ network.Crosses index id next
  | .done, next, _, _, _ => ⟨.refl, by simp [Trail.ids]⟩
  | .step source label rest, next, filled, gapless, holds => by
      obtain ⟨here, behind⟩ := Network.holds_cons.mp holds
      obtain ⟨through, inside⟩ := rest.crosses filled gapless behind
      have first : network.Crosses index source (rest.first?.getD next) := by
        refine .single ⟨_, here, rfl, by simp, label.edge starts (rest.first?.getD next), ?_, label.next_edge starts _⟩
        cases known : rest.first? <;> simp [Trail.enter, known]
      refine ⟨first.trans through, List.forall_mem_cons.mpr ⟨⟨.refl, first.trans through⟩, fun id listed => ?_⟩⟩
      exact ⟨first.trans (inside id listed).1, (inside id listed).2⟩
  | .gap source rest, next, _, gapless, _ => absurd gapless (Nat.succ_ne_zero _)
  | .block frame start exit ways rest, next, filled, gapless, holds => by
      have entered : rest.enter (some next) = some (rest.first?.getD next) := by
        cases known : rest.first? <;> simp [Trail.enter, known]
      simp only [Trail.layout, Network.holds_append, entered] at holds
      obtain ⟨edge, within, behind⟩ := holds
      obtain ⟨some, solid, later⟩ := filled
      rw [Trail.gaps, Nat.add_eq_zero_iff] at gapless
      obtain ⟨ends, inside⟩ := ways.crosses solid gapless.1 within
      obtain ⟨through, following⟩ := rest.crosses later gapless.2 behind
      -- A block has an alternative, and without gaps one gets through it.
      have passes : network.Crosses index start exit := by
        cases ways with
        | none => exact absurd rfl some
        | more way others =>
            have listed : way.first?.getD exit ∈ (Ways.more way others).entries exit := List.mem_cons_self
            exact (frame.crosses_entries edge listed).trans (ends _ listed)
      have around := frame.crosses edge passes
      have opens := around start List.mem_cons_self
      have closes := around exit (List.mem_cons_of_mem _ List.mem_cons_self)
      refine ⟨opens.1.trans (opens.2.trans through), fun id listed => ?_⟩
      rw [Trail.ids, List.mem_append, List.mem_append] at listed
      rcases listed with atFrame | inWays | inRest
      · exact ⟨(around id atFrame).1, (around id atFrame).2.trans through⟩
      · obtain ⟨entry, member, front, back⟩ := inside id inWays
        exact ⟨opens.1.trans ((frame.crosses_entries edge member).trans front), back.trans (closes.2.trans through)⟩
      · exact ⟨opens.1.trans (opens.2.trans (following id inRest).1), (following id inRest).2⟩

/-- Every state of an alternative lies between its first state and the end of the block. -/
theorem Ways.crosses : ∀ (ways : Ways) {exit : StateId}, ways.Filled → ways.gaps = 0 →
    network.Holds (ways.layout starts (some index) exit) →
    (∀ entry ∈ ways.entries exit, network.Crosses index entry exit) ∧
      ∀ id ∈ ways.ids, ∃ entry ∈ ways.entries exit, network.Crosses index entry id ∧ network.Crosses index id exit
  | .none, exit, _, _, _ => by simp [Ways.entries, Ways.ids]
  | .more way rest, exit, filled, gapless, holds => by
      obtain ⟨here, others⟩ := Network.holds_append.mp holds
      rw [Ways.gaps, Nat.add_eq_zero_iff] at gapless
      obtain ⟨through, inside⟩ := way.crosses filled.2.1 gapless.1 here
      obtain ⟨ends, within⟩ := rest.crosses filled.2.2 gapless.2 others
      refine ⟨List.forall_mem_cons.mpr ⟨through, ends⟩, fun id listed => ?_⟩
      rcases List.mem_append.mp listed with first | later
      · exact ⟨_, List.mem_cons_self, inside id first⟩
      · obtain ⟨entry, member, crosses⟩ := within id later
        exact ⟨entry, List.mem_cons_of_mem _ member, crosses⟩

end

end Crossing

/-- Every state of a rule lies on a way from the start of the rule to its end that does not leave the rule. -/
def Network.Trim (network : Network) : Prop :=
  ∀ id state index, network.state? id = some state → state.rule = some index →
    ∃ start stop, network.ruleStarts[index]? = some start ∧ network.ruleStops[index]? = some stop ∧
      network.Crosses index start id ∧ network.Crosses index id stop

/-- Rules without gaps make a trim network. -/
theorem Network.Houses.trim {network : Network} {others : Heap} {parts : List RulePart}
    (houses : network.Houses others parts) (solid : ∀ part ∈ parts, part.body.Solid)
    (gapless : ∀ part ∈ parts, part.body.gaps = 0) : network.Trim := by
  intro id state index found same
  rcases houses.mem_of_state? found with outside | ⟨number, part, known, inside⟩
  · rw [(houses.neutral _ outside).rule] at same
    cases same
  · have listed := List.mem_of_getElem? known
    obtain rfl : number = index := by
      rcases RulePart.confined (houses.callsBelow known) inside with ⟨rfl, _⟩ | confined
      · exact Option.some.inj same
      · exact Option.some.inj (confined.rule.symm.trans same)
    obtain ⟨through, within⟩ :=
      part.body.crosses (solid part listed).filled (gapless part listed) (houses.holds_body known)
    have first : network.Crosses number part.start (part.body.first?.getD part.stop) := by
      refine network.crosses_silent (houses.state?_start known) rfl (by simp) (List.mem_map_of_mem ?_)
      cases entered : part.body.first? with
      | none => exact absurd (Trail.first?_eq_none.mp entered) (solid part listed).some
      | some entry => simp
    refine ⟨part.start, part.stop, ?_, ?_, ?_⟩
    · rw [houses.ruleStarts_getElem?, known, Option.map_some]
    · rw [houses.ruleStops_getElem?, known, Option.map_some]
    · simp only [RulePart.heap, List.mem_cons, Prod.mk.injEq] at inside
      rcases inside with ⟨rfl, _⟩ | ⟨rfl, _⟩ | inBody
      · exact ⟨.refl, first.trans through⟩
      · exact ⟨first.trans through, .refl⟩
      · have crosses := within id (part.body.ids_layout .. ▸ Heap.mem_ids_of_mem inBody)
        exact ⟨first.trans crosses.1, crosses.2⟩

/-- A run that ends without a reported gap has built a trim network; parsers have no gaps. -/
theorem Plan.trim_of_run {plan : Plan} {journal : Journal} {network : Network} {after : Construction}
    (ends : plan.run journal = .ok network after)
    (sound : plan.kind = .parser ∨ after.journal.flaws = journal.flaws) : network.Trim := by
  obtain ⟨others, parts, makes, _, flaws, _⟩ := completes_of_run ends
  have sketched : ∀ part ∈ parts, plan.Sketched part.body.erase := by
    intro part listed
    obtain ⟨index, found⟩ := List.getElem?_of_mem listed
    obtain ⟨rule, _, draws⟩ := makes.draws_part found
    exact sketched_body draws.body
  refine makes.houses.trim (fun part listed => ?_) fun part listed => ?_
  · have solid := (sketched part listed).solid
    exact ⟨fun none => solid.some (Trail.erase_eq_done.mpr none), (Trail.filled_erase _).mp solid.filled⟩
  · rcases sound with parser | none
    · rw [← Trail.gaps_erase]
      exact (sketched part listed).gapless parser
    · have count : RulePart.gaps parts = 0 := by omega
      exact RulePart.gaps_eq_zero.mp count part listed

/-- Every network of a parser is trim, and so is a network of a lexer unless a literal or a set without characters
was reported. -/
theorem Plan.run_trim (plan : Plan) (journal : Journal) :
    match plan.run journal with
    | .ok network after => plan.kind = .parser ∨ after.journal.flaws = journal.flaws → network.Trim
    | .error _ _ => True := by
  split
  · exact fun sound => trim_of_run ‹_› sound
  · trivial

end GrammarNetwork
