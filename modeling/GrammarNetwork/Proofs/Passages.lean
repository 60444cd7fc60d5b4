import GrammarNetwork.Proofs.Emptiness
import GrammarNetwork.Proofs.Exploration
import GrammarNetwork.Proofs.Runs

/-! Passages: the lookahead finds a way along every trail that matches nothing, unless it refuses a call of a rule
that matches nothing though it is not inside a call of that rule. -/

namespace GrammarNetwork

namespace Network

/-- The rules of the calls that the search is in. -/
def openRules (network : Network) (key : List StateId) : List Nat :=
  key.dropLast.filterMap network.ruleOf?

/-- The search would end at the state. -/
def EndsAt (exit : StateId) (stack : List StateId) (id : StateId) : Prop :=
  some exit = some id ∧ stack = []

/-- The search comes to a call of a rule that matches nothing and refuses it, though it is not inside a call of
that rule. -/
def Misses (network : Network) (meanings : Meanings) (start exit : StateId) : Prop :=
  ∃ probe state transition rule level follow, network.Visits (some exit) start probe ∧
    ¬EndsAt exit probe.stack probe.id ∧ network.state? probe.id = some state ∧ state.kind ≠ .ruleStop ∧
    transition ∈ state.transitions ∧ transition.label = .call rule level follow ∧
    MatchesNothing (meanings rule) ∧ rule ∈ probe.called ∧ rule ∉ network.openRules probe.key

/-- All that the search has come to is explored, and it has missed no call. -/
structure Thorough (network : Network) (meanings : Meanings) (start exit : StateId) (search : LookSearch) : Prop where
  explored : ∀ key, search.busy.contains key = true → ∃ probe, probe.key = key ∧
    network.Visits (some exit) start probe ∧ network.Explored (some exit) search probe
  fair : ¬network.Misses meanings start exit

theorem openRules_congr {network : Network} {id other : StateId} (same : network.ruleOf? id = network.ruleOf? other)
    (stack : List StateId) : network.openRules (id :: stack) = network.openRules (other :: stack) := by
  cases stack with
  | nil => rfl
  | cons follow rest => simp [openRules, List.filterMap_cons, same]

theorem openRules_call {network : Network} {id follow : StateId} {rule : Nat} (known : network.ruleOf? id = some rule)
    (stack : List StateId) :
    network.openRules (id :: follow :: stack) = rule :: network.openRules (follow :: stack) := by
  simp [openRules, known]

end Network

/-- When the search has come to `source`, it has come to `target`, too. -/
def LookSearch.Passes (search : LookSearch) (stack : List StateId) (source target : StateId) : Prop :=
  search.busy.contains (source :: stack) = true → search.busy.contains (target :: stack) = true

namespace Network

section Passing

variable {network : Network} {meanings : Meanings} {start exit : StateId} {search : LookSearch}
  {stack : List StateId}

namespace Thorough

theorem pass (thorough : network.Thorough meanings start exit search) {id : StateId} {state : State}
    {transition : Transition} (goes : ¬EndsAt exit stack id) (found : network.state? id = some state)
    (inner : state.kind ≠ .ruleStop) (leaves : transition ∈ state.transitions)
    (plain : transition.label.isCall = false) (silent : transition.label.isEpsilon = true) :
    search.Passes stack id transition.target := by
  intro known
  obtain ⟨⟨called, _, _⟩, same, visits, explored⟩ := thorough.explored _ known
  cases same
  exact explored.steps _ (.pass goes found inner leaves plain silent)

theorem silent (thorough : network.Thorough meanings start exit search) {id target : StateId} {state : State}
    (goes : ¬EndsAt exit stack id) (found : network.state? id = some state) (inner : state.kind ≠ .ruleStop)
    (leaves : .silent target ∈ state.transitions) : search.Passes stack id target :=
  thorough.pass goes found inner leaves rfl rfl

theorem back (thorough : network.Thorough meanings start exit search) {id follow : StateId} {state : State}
    (found : network.state? id = some state) (ends : state.kind = .ruleStop)
    (known : search.busy.contains (id :: follow :: stack) = true) :
    search.busy.contains (follow :: stack) = true := by
  obtain ⟨⟨called, _, _⟩, same, visits, explored⟩ := thorough.explored _ known
  cases same
  exact explored.steps _ (.back found ends)

/-- A call of a rule that matches nothing is made when no call of the rule is open. -/
theorem enter (thorough : network.Thorough meanings start exit search) {id : StateId} {state : State}
    {transition : Transition} {rule : Nat} {level : Int} {follow : StateId} (goes : ¬EndsAt exit stack id)
    (found : network.state? id = some state) (inner : state.kind ≠ .ruleStop)
    (leaves : transition ∈ state.transitions) (calls : transition.label = .call rule level follow)
    (empty : MatchesNothing (meanings rule)) (closed : rule ∉ network.openRules (id :: stack))
    (known : search.busy.contains (id :: stack) = true) :
    search.busy.contains (transition.target :: follow :: stack) = true := by
  obtain ⟨⟨called, _, _⟩, same, visits, explored⟩ := thorough.explored _ known
  cases same
  refine explored.steps _ (.enter goes found inner leaves calls fun refused => thorough.fair ?_)
  exact ⟨_, _, _, _, _, _, visits, goes, found, inner, leaves, calls, empty, refused, closed⟩

end Thorough

/-- The search gets through a block that matches nothing when it gets through an alternative that does. -/
theorem passes_frame (thorough : network.Thorough meanings start exit search) {rule : Option Nat} {frame : Frame}
    {left right next : StateId} {entries : List StateId} {inner : Language Letter}
    (holds : network.Holds (frame.states rule left right entries (some next)))
    (goes : ∀ id ∈ left :: right :: frame.loopIds, ¬EndsAt exit stack id)
    (empty : MatchesNothing (frame.words inner))
    (through : MatchesNothing inner → ∃ target ∈ entries, search.Passes stack target right) :
    search.Passes stack (frame.entry left) next := by
  have atStart := holds.startState
  have atExit := holds.exitState
  rw [List.forall_mem_cons, List.forall_mem_cons] at goes
  obtain ⟨goesLeft, goesRight, goesLoop⟩ := goes
  have opens : (frame.startState rule right entries).kind ≠ .ruleStop := by simp [Frame.startState]
  have closes : (frame.exitState rule left (some next)).kind ≠ .ruleStop := by simp [Frame.exitState]
  -- A star and an optional block are passed without their alternatives; the others need one that matches nothing.
  have within : MatchesNothing inner → search.Passes stack left right := by
    intro empty known
    obtain ⟨target, listed, passes⟩ := through empty
    refine passes (thorough.silent goesLeft atStart opens (List.mem_map_of_mem ?_) known)
    cases frame with
    | optional decision greedy => cases greedy <;> simp [Frame.startTargets, listed]
    | _ => exact listed
  cases frame with
  | plain decision =>
      intro known
      exact thorough.silent goesRight atExit closes (List.mem_singleton.mpr rfl) (within empty known)
  | optional decision greedy =>
      intro known
      have skipped : search.busy.contains (right :: stack) = true := by
        refine thorough.silent goesLeft atStart opens (List.mem_map_of_mem ?_) known
        cases greedy <;> simp [Frame.startTargets]
      exact thorough.silent goesRight atExit closes (List.mem_singleton.mpr rfl) skipped
  | star decision greedy entry loopBack loopEnd entryDecision =>
      simp only [Frame.states, Frame.loopStates, holds_cons] at holds
      obtain ⟨_, _, atEntry, atEnd, _⟩ := holds
      intro known
      have skipped := thorough.silent (goesLoop entry (by simp [Frame.loopIds])) atEntry (by simp)
        (List.mem_map_of_mem (forkTargets_mem.mpr (Or.inr rfl))) known
      exact thorough.silent (goesLoop loopEnd (by simp [Frame.loopIds])) atEnd (by simp)
        (List.mem_singleton.mpr rfl) skipped
  | plus decision greedy loopBack loopEnd loopDecision =>
      simp only [Frame.states, Frame.loopStates, holds_cons] at holds
      obtain ⟨_, _, atBack, atEnd, _⟩ := holds
      intro known
      have once := within (MatchesNothing.mul_iff.mp empty).1 known
      have back := thorough.silent goesRight atExit closes (List.mem_singleton.mpr rfl) once
      have left := thorough.silent (goesLoop loopBack (by simp [Frame.loopIds])) atBack (by simp)
        (List.mem_map_of_mem (forkTargets_mem.mpr (Or.inr rfl))) back
      exact thorough.silent (goesLoop loopEnd (by simp [Frame.loopIds])) atEnd (by simp)
        (List.mem_singleton.mpr rfl) left

/-- The search gets through the calls of a rule that match nothing when the rules have these words. -/
def PassesCalls (network : Network) (index : Nat) (stack : List StateId) (search : LookSearch)
    (meanings : Meanings) (exit : StateId) : Prop :=
  ∀ source next callee level follow,
    network.state? source = some
      { rule := some index, kind := .basic,
        transitions := [Label.edge network.ruleStarts (.call callee level follow) next] } →
    ¬EndsAt exit stack source → MatchesNothing (meanings callee) → search.Passes stack source next

mutual

theorem passes_trail (thorough : network.Thorough meanings start exit search) {index : Nat} {limited : Meanings}
    (calls : network.PassesCalls index stack search limited exit) : ∀ (trail : Trail) {next id : StateId},
    network.Holds (trail.layout network.ruleStarts (some index) (some next)) →
    (∀ id ∈ trail.ids, ¬EndsAt exit stack id) → trail.enter (some next) = some id →
    MatchesNothing (trail.words network.vocabulary limited .blank) → search.Passes stack id next
  | .done, next, id, _, _, enters, _ => by
      cases enters
      exact fun known => known
  | .step source label rest, next, id, holds, goes, enters, empty => by
      cases enters
      obtain ⟨target, entered⟩ := rest.enter_some next
      rw [Trail.ids, List.forall_mem_cons] at goes
      simp only [Trail.layout, holds_cons, entered] at holds
      obtain ⟨here, there⟩ := MatchesNothing.mul_iff.mp empty
      refine fun known => passes_trail thorough calls rest holds.2 goes.2 entered there ?_
      cases plain : label.isCall with
      | false =>
          have silent := (Label.matchesNothing_iff plain).mp here
          have passes := thorough.pass goes.1 holds.1 (by simp) (List.mem_singleton.mpr rfl)
            (by simp [plain]) (by cases label <;> exact silent)
          rw [label.target_edge network.ruleStarts plain] at passes
          exact passes known
      | true =>
          cases label <;> first | exact calls _ _ _ _ _ holds.1 goes.1 here known | cases plain
  | .gap source rest, _, _, _, _, _, empty => (MatchesNothing.zero_iff.mp empty).elim
  | .block frame left right ways rest, next, id, holds, goes, enters, empty => by
      cases enters
      obtain ⟨target, entered⟩ := rest.enter_some next
      simp only [Trail.ids, List.forall_mem_append] at goes
      simp only [Trail.layout, holds_append, entered] at holds
      obtain ⟨here, there⟩ := MatchesNothing.mul_iff.mp empty
      have through := passes_frame thorough holds.1 goes.1 here fun inner =>
        passes_ways thorough calls ways holds.2.1 goes.2.1 inner
      exact fun known => passes_trail thorough calls rest holds.2.2 goes.2.2 entered there (through known)

theorem passes_ways (thorough : network.Thorough meanings start exit search) {index : Nat} {limited : Meanings}
    (calls : network.PassesCalls index stack search limited exit) : ∀ (ways : Ways) {right : StateId},
    network.Holds (ways.layout network.ruleStarts (some index) right) →
    (∀ id ∈ ways.ids, ¬EndsAt exit stack id) → MatchesNothing (ways.words network.vocabulary limited .blank) →
    ∃ target ∈ ways.entries right, search.Passes stack target right
  | .none, _, _, _, empty => (MatchesNothing.zero_iff.mp empty).elim
  | .more way rest, right, holds, goes, empty => by
      simp only [Ways.layout, holds_append] at holds
      rw [Ways.ids, List.forall_mem_append] at goes
      rcases MatchesNothing.add_iff.mp empty with first | later
      · obtain ⟨target, entered⟩ := way.enter_some right
        refine ⟨target, ?_, passes_trail thorough calls way holds.1 goes.1 entered first⟩
        simp only [Trail.enter] at entered
        cases found : way.first? <;> simp [found] at entered <;> simp [Ways.entries, found, entered]
      · obtain ⟨target, listed, passes⟩ := passes_ways thorough calls rest holds.2 goes.2 later
        exact ⟨target, List.mem_cons_of_mem _ listed, passes⟩

end

end Passing

/-- What the lookahead finds a way to is noticed. -/
theorem look_of_passes {network : Network} {meanings : Meanings} {start exit : StateId} (closed : network.Closed)
    (live : network.isLive start = true) (fair : ¬network.Misses meanings start exit)
    (passes : ∀ search, network.Thorough meanings start exit search → search.Passes [] start exit) :
    (network.look start (some exit)).contains emptyWord = true := by
  obtain ⟨search, same, known, explored⟩ : ∃ search : LookSearch,
      network.look start (some exit) = search.look ∧ search.busy.contains [start] = true ∧
        ∀ key, search.busy.contains key = true → ∃ probe, probe.key = key ∧
          network.Visits (some exit) start probe ∧ network.Explored (some exit) search probe :=
    look_explores closed live
  obtain ⟨⟨called, _, _⟩, here, _, arrived⟩ := explored _ (passes search ⟨explored, fair⟩ known)
  cases here
  rw [same]
  exact arrived.ends rfl rfl

end Network

/-- A rule that matches nothing after some rounds does so first after one of them. -/
theorem Plan.first_round {plan : Plan} {vocabulary : IntervalSet} {rule : Nat} : ∀ {count : Nat},
    MatchesNothing (plan.rounds vocabulary count rule) → ∃ earlier < count,
      ¬MatchesNothing (plan.rounds vocabulary earlier rule) ∧
        MatchesNothing (plan.rounds vocabulary (earlier + 1) rule)
  | 0, empty => (MatchesNothing.zero_iff.mp empty).elim
  | count + 1, empty => by
      by_cases before : MatchesNothing (plan.rounds vocabulary count rule)
      · obtain ⟨earlier, less, found⟩ := Plan.first_round before
        exact ⟨earlier, Nat.lt_succ_of_lt less, found⟩
      · exact ⟨count, Nat.lt_succ_self count, before, empty⟩

namespace Network.Houses

variable {network : Network} {others : Heap} {parts : List RulePart} {part : RulePart}

theorem ruleOf?_call (houses : network.Houses others parts) {index : Nat} {source next callee : Nat} {level : Int}
    {follow : StateId} (found : network.state? source = some
      { rule := some index, kind := .basic,
        transitions := [Label.edge network.ruleStarts (.call callee level follow) next] }) :
    network.ruleOf? next = some index := by
  have inner : network.ruleStops[index]? ≠ some source := by
    intro ends
    rw [houses.ruleStops_getElem?, Option.map_eq_some_iff] at ends
    obtain ⟨part, known, rfl⟩ := ends
    rw [houses.state?_stop known] at found
    cases found
  have stays := houses.closed.rules source _ index found rfl inner _ (List.mem_singleton.mpr rfl)
  obtain ⟨state, known, same⟩ := isInRule_iff.mp stays.2
  simp [ruleOf?, known, same]

end Network.Houses

namespace Plan.Makes

variable {plan : Plan} {network : Network} {others : Heap} {parts : List RulePart} {start exit : StateId}
  {search : LookSearch}

/-- The search gets through the calls of a rule that match nothing after some rounds, when the rules that it is
inside of need more rounds. -/
theorem passesCalls (makes : plan.Makes network others parts)
    (thorough : network.Thorough (plan.plainLanguage network.vocabulary) start exit search) :
    ∀ (count index : Nat) (stack : List StateId),
    (∀ id, network.ruleOf? id = some index → ∀ rule ∈ network.openRules (id :: stack),
      ¬MatchesNothing (plan.rounds network.vocabulary count rule)) →
    network.PassesCalls index stack search (plan.rounds network.vocabulary count) exit := by
  have houses := makes.houses
  intro count
  induction count using Nat.strong_induction_on with
  | _ count ih =>
      intro index stack later source next callee level follow found goes empty known
      have home : network.ruleOf? source = some index := by simp [Network.ruleOf?, found]
      have closed : callee ∉ network.openRules (source :: stack) := fun inside => later source home callee inside empty
      have entered := thorough.enter goes found (by simp) (List.mem_singleton.mpr rfl) rfl
        (empty.mono (rounds_le_language count callee)) closed known
      -- The body of the rule that is called needs fewer rounds than the rules around the call.
      obtain ⟨earlier, less, notYet, now⟩ := first_round empty
      cases listed : plan.grammar.rules[callee]? with
      | none => simp [rounds, ruleWords, listed] at now
      | some rule =>
          obtain ⟨part, there, draws⟩ := makes.part_of_rule listed
          rw [rounds, ← makes.words_body there network.vocabulary] at now
          simp only [Label.edge, houses.ruleStarts_getElem?, there, Option.map_some, Option.getD_some] at entered
          have away : ∀ id, ¬Network.EndsAt exit (next :: stack) id := fun id ends => by cases ends.2
          have calls := ih earlier less callee (next :: stack) fun id inside other open_ => by
            rw [Network.openRules_call inside, List.mem_cons,
              Network.openRules_congr ((houses.ruleOf?_call found).trans home.symm)] at open_
            rcases open_ with rfl | outer
            · exact notYet
            · exact fun before => later source home other outer (before.mono (rounds_mono (Nat.le_of_lt less) other))
          obtain ⟨first, opens⟩ := makes.first?_body there
          have inside : search.busy.contains (first :: next :: stack) = true :=
            thorough.silent (away _) (houses.state?_start there) (by simp) (by simp [opens]) entered
          have through := Network.passes_trail thorough calls part.body (houses.holds_body there)
            (fun id _ => away id) (Trail.enter_of_first? opens _) now inside
          exact thorough.back (houses.state?_stop there) rfl through

end Plan.Makes

end GrammarNetwork
