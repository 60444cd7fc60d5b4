import Mathlib.Data.List.Forall2
import GrammarNetwork.Proofs.Modes

/-! Complete networks: what links the rules of a parser to their calls and the modes of a lexer to their
rules, and what the checks at the end report. -/

namespace GrammarNetwork

/-- The part without what leaves its end. -/
def RulePart.inside (part : RulePart) : RulePart :=
  { part with exits := [] }

/-- The part with one more transition that leaves its end. -/
def RulePart.addExit (part : RulePart) (transition : Transition) : RulePart :=
  { part with exits := part.exits ++ [transition] }

theorem RulePart.joints_of_inside {parts current : List RulePart}
    (same : current.map RulePart.inside = parts.map RulePart.inside) :
    RulePart.joints current = RulePart.joints parts := by
  have through : ∀ parts : List RulePart, RulePart.joints (parts.map RulePart.inside) = RulePart.joints parts := by
    intro parts
    simp [RulePart.joints, List.flatMap_map, RulePart.inside]
  rw [← through current, same, through parts]

namespace Network.Houses

variable {network : Network} {others : Heap} {parts ahead behind : List RulePart} {part : RulePart}

theorem congr {other : Network} (houses : network.Houses others parts) (states : other.states = network.states)
    (decisions : other.decisions = network.decisions) (starts : other.ruleStarts = network.ruleStarts)
    (stops : other.ruleStops = network.ruleStops) (modes : other.modeStarts = network.modeStarts) :
    other.Houses others parts where
  stands := by
    rw [starts]
    exact houses.stands.congr states decisions
  starts := by rw [starts, houses.starts]
  stops := by rw [stops, houses.stops]
  modes := by rw [modes]; exact houses.modes
  neutral := by rw [starts]; exact houses.neutral
  calls := houses.calls
  exits part member transition listed := by
    have same : other.isLive transition.target = network.isLive transition.target := by
      simp [Network.isLive, Network.state?, states]
    rw [same]
    exact houses.exits part member transition listed

theorem addExit (houses : network.Houses others (ahead ++ part :: behind)) (transition : Transition)
    (plain : transition.label.isCall = false) (live : network.isLive transition.target = true) :
    (network.addTransition part.stop transition).Houses others (ahead ++ part.addExit transition :: behind) := by
  have stands : Stands (network.addTransition part.stop transition)
      (others ++ RulePart.heaps network.ruleStarts 0 (ahead ++ part.addExit transition :: behind)) := by
    have opened := houses.stands.perm (RulePart.split network.ruleStarts others ahead behind part)
    have left := Stands.modifyAt [_] opened
      (fun state => { state with transitions := state.transitions ++ [transition] }) fun _ => rfl
    exact left.perm (RulePart.split network.ruleStarts others ahead behind (part.addExit transition)).symm
  obtain ⟨_, starts, stops, modes, neutral, calls, exits⟩ := houses
  simp only [List.forall_mem_append, List.forall_mem_cons] at calls exits
  refine ⟨stands, ?_, ?_, modes, neutral, ?_, ?_⟩
  · simpa [RulePart.addExit, Network.addTransition, Network.modifyState] using starts
  · simpa [RulePart.addExit, Network.addTransition, Network.modifyState] using stops
  · have size : (ahead ++ part.addExit transition :: behind).length = (ahead ++ part :: behind).length := by simp
    rw [size, List.forall_mem_append, List.forall_mem_cons]
    exact calls
  · simp only [Network.addTransition, Network.isLive_modifyState, List.forall_mem_append, List.forall_mem_cons]
    refine ⟨exits.1, ?_, exits.2.2⟩
    intro other member
    rcases List.mem_append.mp member with old | new
    · exact exits.2.1 other old
    · rw [List.mem_singleton.mp new]
      exact ⟨plain, live⟩

end Network.Houses

theorem Network.calls_eq (network : Network) :
    network.calls = network.states.toList.filterMap fun slot => slot.bind State.call? := by
  have shift : ∀ (slots : List (Option State)) (first : Nat),
      ((slots.zipIdx first).filterMap fun slot => slot.1.map fun state => (slot.2, state)).filterMap
        (fun entry => entry.2.call?) = slots.filterMap fun slot => slot.bind State.call? := by
    intro slots
    induction slots with
    | nil => simp
    | cons slot slots ih =>
        intro first
        cases slot with
        | none => simpa using ih (first + 1)
        | some state =>
            simp only [List.zipIdx_cons, List.filterMap_cons, Option.map_some, Option.bind_some]
            rw [ih (first + 1)]
  exact shift network.states.toList 0

/-- The calls stay when a state changes that makes none before and after. -/
theorem Network.calls_modifyState {network : Network} {id : StateId} {change : State → State}
    (same : ∀ state, network.state? id = some state → (change state).call? = state.call?) :
    (network.modifyState id change).calls = network.calls := by
  have slots : ∀ (slots : List (Option State)) (id : Nat),
      (∀ state, slots[id]?.join = some state → (change state).call? = state.call?) →
      (slots.modify id (Option.map change)).filterMap (fun slot => slot.bind State.call?) =
        slots.filterMap fun slot => slot.bind State.call? := by
    intro slots
    induction slots with
    | nil => simp
    | cons slot slots ih =>
        intro id same
        cases id with
        | zero =>
            cases slot with
            | none => simp
            | some state =>
                have here := same state rfl
                simp only [List.modify_zero_cons, List.filterMap_cons, Option.map_some, Option.bind_some, here]
        | succ id =>
            have later := ih id (by simpa using same)
            simp only [List.modify_succ_cons, List.filterMap_cons, later]
  rw [calls_eq, calls_eq, Network.modifyState, Array.toList_modify]
  exact slots network.states.toList id (by simpa [Network.state?] using same)

theorem Network.calls_addState (network : Network) {state : State} (idle : state.transitions = []) :
    (network.addState state).calls = network.calls := by
  have silent : state.call? = none := by
    simp only [State.call?, idle]
    cases state.kind <;> rfl
  simp [calls_eq, Network.addState, silent, List.filterMap_append]

/-- A construction of these rules whose ends have got these transitions. -/
def Settled (journal : Journal) (others : Heap) (parts : List RulePart) (exits : Nat → List Transition)
    (construction : Construction) : Prop :=
  ∃ current : List RulePart, Progress journal construction others current ∧
    current.map RulePart.inside = parts.map RulePart.inside ∧
    ∀ index part, current[index]? = some part → part.exits = exits index

/-- What stays in a network when its rules are linked. -/
structure Network.Keeps (before after : Network) : Prop where
  live : ∀ id, before.isLive id = true → after.isLive id = true
  calls : after.calls = before.calls

theorem Network.Keeps.refl (network : Network) : network.Keeps network :=
  ⟨fun _ listed => listed, rfl⟩

theorem Network.Keeps.trans {before middle after : Network} (first : before.Keeps middle)
    (second : middle.Keeps after) : before.Keeps after :=
  ⟨fun id listed => second.live id (first.live id listed), second.calls.trans first.calls⟩

/-- Leads back to where the calls of a rule go on. -/
def followLinks (calls : List (Nat × StateId)) (index : Nat) : List Transition :=
  (calls.filter fun call => call.1 = index).map fun call => .silent call.2

/-- What leaves the end of a rule: the ways back to its calls or, if there are none, the end of the input. -/
def ruleExits (calls : List (Nat × StateId)) (sink : StateId) (index : Nat) : List Transition :=
  if (followLinks calls index).isEmpty then [⟨sink, .atom endOfInput⟩] else followLinks calls index

namespace Build

variable {plan : Plan} {journal : Journal} {others : Heap} {parts : List RulePart}
  {before : Construction} {bad : Failure → Prop} {exits : Nat → List Transition}

theorem meets_addExit {current : List RulePart} {part : RulePart} {index : Nat}
    (progress : Progress journal before others current)
    (same : current.map RulePart.inside = parts.map RulePart.inside)
    (left : ∀ index part, current[index]? = some part → part.exits = exits index)
    (found : current[index]? = some part) {transition : Transition} (plain : transition.label.isCall = false)
    (live : before.network.isLive transition.target = true) :
    Meets (addTransition part.stop transition) before (fun _ after =>
      Settled journal others parts (Function.update exits index (exits index ++ [transition])) after ∧
        before.network.Keeps after.network) bad := by
  have atStop := progress.houses.state?_stop found
  refine (meets_addTransition (before.network.isLive_iff.mpr ⟨_, atStop⟩)).mpr ?_
  obtain ⟨bound, here⟩ := List.getElem?_eq_some_iff.mp found
  have split : current = current.take index ++ part :: current.drop (index + 1) := by
    rw [← here, List.getElem_cons_drop, List.take_append_drop]
  have width : (current.take index).length = index := List.length_take_of_le (Nat.le_of_lt bound)
  -- The rule is one of the parts, and the ones ahead of it and behind it stay as they are.
  generalize current.take index = ahead at split width
  generalize current.drop (index + 1) = behind at split
  subst split width
  have checks : ∀ kind, RulePart.checks kind 0 (ahead ++ part.addExit transition :: behind) =
      RulePart.checks kind 0 (ahead ++ part :: behind) := by
    intro kind
    simp [RulePart.checks_append, RulePart.checks, RulePart.addExit]
  have gaps : RulePart.gaps (ahead ++ part.addExit transition :: behind) = RulePart.gaps (ahead ++ part :: behind) := by
    simp [RulePart.gaps_append, RulePart.gaps, RulePart.addExit]
  refine ⟨⟨_, ⟨progress.houses.addExit transition plain live, ?_, ?_, ?_⟩, ?_, ?_⟩, ?_, ?_⟩
  · rw [checks, ← progress.loopChecks]
  · rw [checks, ← progress.optionalChecks]
  · rw [gaps]
    exact progress.journal
  · rw [← same]
    simp [RulePart.addExit, RulePart.inside]
  · intro other found' listed
    by_cases equal : other = ahead.length
    · subst equal
      simp only [List.getElem?_append_right (Nat.le_refl _), Nat.sub_self, List.getElem?_cons_zero,
        Option.some.injEq] at listed
      rw [Function.update_self, ← listed, RulePart.addExit, left ahead.length part found]
    · rw [Function.update_of_ne equal]
      refine left other found' ?_
      rw [← listed]
      rcases Nat.lt_or_ge other ahead.length with before | beyond
      · rw [List.getElem?_append_left before, List.getElem?_append_left before]
      · obtain ⟨offset, rfl⟩ := Nat.exists_eq_add_of_lt (Nat.lt_of_le_of_ne beyond (Ne.symm equal))
        simp [List.getElem?_append_right, Nat.add_assoc]
  · intro id listed
    rwa [Network.addTransition, Network.isLive_modifyState]
  · refine Network.calls_modifyState fun state known => ?_
    rw [atStop] at known
    cases known
    rfl

theorem meets_addFollowLink (settled : Settled journal others parts exits before) {call : Nat × StateId}
    (live : before.network.isLive call.2 = true) :
    Meets (addFollowLink call) before (fun _ after =>
      Settled journal others parts (fun index => exits index ++ followLinks [call] index) after ∧
        before.network.Keeps after.network) bad := by
  obtain ⟨current, progress, same, left⟩ := settled
  simp only [addFollowLink, meets_bind, meets_network]
  rw [progress.houses.ruleStops_getElem?]
  cases found : current[call.1]? with
  | none =>
      refine ⟨⟨current, progress, same, fun index part listed => ?_⟩, .refl _⟩
      have other : call.1 ≠ index := by
        rintro rfl
        rw [found] at listed
        cases listed
      simpa [followLinks, other] using left index part listed
  | some part =>
      refine (meets_addExit progress same left found rfl live).weaken ?_ fun _ admitted => admitted
      rintro _ after ⟨settled, keeps⟩
      refine ⟨?_, keeps⟩
      have links : Function.update exits call.1 (exits call.1 ++ [.silent call.2]) =
          fun index => exits index ++ followLinks [call] index := by
        funext index
        by_cases equal : index = call.1
        · subst equal
          simp [followLinks]
        · simp [followLinks, equal, Ne.symm equal]
      rwa [links] at settled

theorem meets_followLinks (calls : List (Nat × StateId)) : ∀ {before : Construction} {exits : Nat → List Transition},
    Settled journal others parts exits before → (∀ call ∈ calls, before.network.isLive call.2 = true) →
    Meets (calls.forM addFollowLink) before (fun _ after =>
      Settled journal others parts (fun index => exits index ++ followLinks calls index) after ∧
        before.network.Keeps after.network) bad := by
  induction calls with
  | nil =>
      intro before exits settled _
      exact ⟨by simpa [followLinks] using settled, .refl _⟩
  | cons call rest ih =>
      intro before exits settled live
      rw [List.forall_mem_cons] at live
      simp only [List.forM, meets_bind]
      refine (meets_addFollowLink settled live.1).weaken ?_ fun _ admitted => admitted
      rintro _ middle ⟨linked, keeps⟩
      refine (ih linked fun other member => keeps.live _ (live.2 other member)).weaken ?_ fun _ admitted => admitted
      rintro _ after ⟨done, later⟩
      refine ⟨?_, keeps.trans later⟩
      have links : (fun index => exits index ++ followLinks [call] index ++ followLinks rest index) =
          fun index => exits index ++ followLinks (call :: rest) index := by
        funext index
        rw [List.append_assoc, followLinks, followLinks, ← List.map_append, ← List.filter_append]
        rfl
      rwa [links] at done

theorem isLive_calls (progress : Progress journal before others parts) :
    ∀ call ∈ before.network.calls, before.network.isLive call.2 = true := by
  intro call member
  obtain ⟨⟨id, state⟩, listed, made⟩ := List.mem_filterMap.mp member
  have found := before.network.mem_liveStates.mp listed
  simp only [State.call?] at made
  split at made
  · rename_i rule level follow _ transitions
    cases made
    exact progress.houses.isLive_follow found (transitions ▸ List.mem_singleton.mpr rfl) rfl
  · cases made

/-- The ends of the rules lead back to the calls. -/
theorem meets_addFollowLinks (progress : Progress journal before others parts)
    (bare : ∀ part ∈ parts, part.exits = []) :
    Meets addFollowLinks before (fun _ after =>
      Settled journal others parts (followLinks before.network.calls) after ∧
        before.network.Keeps after.network) bad := by
  simp only [addFollowLinks, meets_bind, meets_network, meets_pure]
  have settled : Settled journal others parts (fun _ => []) before :=
    ⟨parts, progress, rfl, fun index part found => bare part (List.mem_of_getElem? found)⟩
  exact meets_followLinks _ settled (isLive_calls progress)

theorem meets_addEntryEnd (settled : Settled journal others parts exits before) {sink : StateId} {index : Nat}
    {part : RulePart} {entries : Nat} (live : before.network.isLive sink = true) (found : parts[index]? = some part) :
    Meets (addEntryEnd sink entries part.stop) before (fun _ after =>
      Settled journal others parts (Function.update exits index
        (if (exits index).isEmpty then [⟨sink, .atom endOfInput⟩] else exits index)) after ∧
        before.network.Keeps after.network) bad := by
  obtain ⟨current, progress, same, left⟩ := settled
  have listed := congrArg (fun list => list[index]?) same
  simp only [List.getElem?_map, found, Option.map_some, Option.map_eq_some_iff] at listed
  obtain ⟨other, here, equal⟩ := listed
  have stop : other.inside.stop = part.inside.stop := congrArg RulePart.stop equal
  change other.stop = part.stop at stop
  rw [← stop]
  simp only [addEntryEnd, meets_bind]
  refine (meets_state (progress.houses.state?_stop here)).mpr ?_
  simp only [left index other here]
  split
  · rename_i none
    simp only [meets_bind, meets_pure]
    refine (meets_addExit progress same left here rfl live).weaken ?_ fun _ admitted => admitted
    rw [List.isEmpty_iff.mp none]
    exact fun _ _ done => done
  · rw [Function.update_eq_self]
    exact ⟨⟨current, progress, same, left⟩, .refl _⟩

theorem meets_entryEnds {sink : StateId} (remaining : List RulePart) : ∀ {before : Construction} {entries : Nat}
    {exits : Nat → List Transition} {ahead : List RulePart}, ahead ++ remaining = parts →
    Settled journal others parts exits before → before.network.isLive sink = true →
    Meets ((remaining.map RulePart.stop).foldlM (addEntryEnd sink) entries) before (fun _ after =>
      Settled journal others parts (fun index => if ahead.length ≤ index ∧ (exits index).isEmpty
        then [⟨sink, .atom endOfInput⟩] else exits index) after ∧ before.network.Keeps after.network) bad := by
  induction remaining with
  | nil =>
      intro before entries exits ahead whole settled _
      obtain ⟨current, progress, same, left⟩ := settled
      refine ⟨⟨current, progress, same, fun index part found => ?_⟩, .refl _⟩
      have bound : index < ahead.length := by
        rw [List.append_nil] at whole
        have lengths := congrArg List.length same
        simp only [List.length_map] at lengths
        rw [whole, ← lengths]
        exact (List.getElem?_eq_some_iff.mp found).1
      -- No rule is left, so none is at an index from here on.
      have beyond : ¬(ahead.length ≤ index ∧ (exits index).isEmpty = true) := fun both =>
        absurd both.1 (Nat.not_le_of_lt bound)
      simp only [if_neg beyond]
      exact left index part found
  | cons part rest ih =>
      intro before entries exits ahead whole settled live
      have found : parts[ahead.length]? = some part := by simp [← whole]
      simp only [List.map_cons, List.foldlM, meets_bind]
      refine (meets_addEntryEnd settled live found).weaken ?_ fun _ admitted => admitted
      rintro _ middle ⟨ended, keeps⟩
      rw [List.append_cons] at whole
      refine (ih whole ended (keeps.live sink live)).weaken ?_ fun _ admitted => admitted
      rintro _ after ⟨done, later⟩
      refine ⟨?_, keeps.trans later⟩
      obtain ⟨current, progress, same, left⟩ := done
      refine ⟨current, progress, same, fun index part found => ?_⟩
      simp only [left index part found, List.length_append, List.length_singleton]
      -- The rule at hand is settled now, and the rules behind it are the ones that the induction is about.
      by_cases equal : index = ahead.length
      · have outside : ¬ahead.length + 1 ≤ index := by omega
        simp only [equal, Function.update_self, Nat.le_refl, true_and, equal ▸ outside, false_and, ↓reduceIte]
      · have shift : ahead.length + 1 ≤ index ↔ ahead.length ≤ index := by omega
        simp only [Function.update_of_ne equal, shift]

/-- The ends of the rules that are never called lead to the end of the input. -/
theorem meets_addEntryEnds (settled : Settled journal [] parts exits before) :
    Meets addEntryEnds before (fun _ after => ∃ sink, Settled journal
      [(sink, { rule := none, kind := .basic })] parts (fun index => if (exits index).isEmpty
        then [⟨sink, .atom endOfInput⟩] else exits index) after ∧
      after.network.calls = before.network.calls) bad := by
  obtain ⟨current, progress, same, left⟩ := settled
  simp only [addEntryEnds, meets_bind, meets_newStateIn, meets_network]
  have stops : before.network.ruleStops.toList = parts.map RulePart.stop := by
    have kept := congrArg (List.map RulePart.stop) same
    simp only [List.map_map] at kept
    exact progress.houses.stops.trans kept
  have widened : Settled journal [(before.network.nextId, { rule := none, kind := .basic })] parts exits
      { before with network := before.network.addState { rule := none, kind := .basic } } :=
    ⟨current, ⟨progress.houses.addOther .basic (Or.inl rfl), progress.loopChecks, progress.optionalChecks,
      progress.journal⟩, same, left⟩
  have live : (before.network.addState { rule := none, kind := .basic }).isLive before.network.nextId = true := by
    simp [Network.isLive]
  have same : (before.network.addState { rule := none, kind := .basic }).ruleStops.toList = parts.map RulePart.stop :=
    stops
  rw [same]
  refine (meets_entryEnds parts (List.nil_append parts) widened live).weaken ?_ fun _ admitted => admitted
  rintro _ after ⟨settled, keeps⟩
  simp only [List.length_nil, Nat.zero_le, true_and] at settled
  exact ⟨_, settled, keeps.calls.trans (before.network.calls_addState rfl)⟩

end Build

/-- What is reported about a loop. -/
def Plan.loopFindings (plan : Plan) (network : Network) (check : Check) : List Diagnostic :=
  match plan.grammar.rules[check.rule]? with
  | none => []
  | some rule =>
      let look := plan.lookahead network check.start (some check.exit)
      let finding (problem : Problem) : Diagnostic :=
        { problem, file := plan.grammar.fileName, position := rule.position, arguments := [rule.name] }
      (if look.contains emptyWord then
        [finding (if rule.leftRecursive then .emptyLeftRecursion else .emptyLoop)] else []) ++
      if look.contains endOfInput then [finding .endOfInputLoop] else []

/-- The block that is checked starts at a state that is there and has one way past the block. -/
def Network.Bypassed (network : Network) (check : Check) : Prop :=
  ∃ start, network.state? check.start = some start ∧
    (start.transitions.map Transition.target).count check.exit = 1

/-- What is reported about an optional block. -/
def Plan.optionalFindings (plan : Plan) (network : Network) (check : Check) : List Diagnostic :=
  match plan.grammar.rules[check.rule]?, network.state? check.start with
  | some rule, some start =>
      let lookahead (target : StateId) : IntervalSet := plan.lookahead network target (some check.exit)
      match Build.optionalFinding lookahead check.exit 0 (start.transitions.map Transition.target) with
      | .empty =>
          [{ problem := .emptyOptional, file := plan.grammar.fileName, position := rule.position,
             arguments := [rule.name] }]
      | .bypasses _ => []
  | _, _ => []

namespace Build

variable {plan : Plan} {before : Construction} {bad : Failure → Prop}

/-- Nothing but the findings is added to what was reported. -/
structure Finds (before after : Construction) (findings : List Diagnostic) : Prop where
  network : after.network = before.network
  loopChecks : after.loopChecks = before.loopChecks
  optionalChecks : after.optionalChecks = before.optionalChecks
  closing : after.journal.closing = before.journal.closing ++ findings
  flaws : after.journal.flaws = before.journal.flaws

theorem Finds.report (plan : Plan) {problem : Problem} (closes : problem.isClosing = true) (position : Option Position)
    (arguments : List String) {middle : Construction} {findings : List Diagnostic}
    (finds : Finds before middle findings) :
    Finds before
      { middle with
        journal := middle.journal.report { problem, file := plan.grammar.fileName, position, arguments } }
      (findings ++ [{ problem, file := plan.grammar.fileName, position, arguments }]) where
  network := finds.network
  loopChecks := finds.loopChecks
  optionalChecks := finds.optionalChecks
  closing := by
    rw [← List.append_assoc, ← finds.closing]
    simp [Journal.closing, Journal.diagnostics_report, closes]
  flaws := by
    have sound : problem.isFlaw = false := by
      cases problem <;> first | rfl | cases closes
    rw [← finds.flaws]
    simp [Journal.flaws_report, sound]

theorem Finds.none (before : Construction) : Finds before before [] :=
  ⟨rfl, rfl, rfl, (List.append_nil _).symm, rfl⟩

theorem Finds.trans {middle after : Construction} {findings more : List Diagnostic}
    (first : Finds before middle findings) (second : Finds middle after more) :
    Finds before after (findings ++ more) where
  network := second.network.trans first.network
  loopChecks := second.loopChecks.trans first.loopChecks
  optionalChecks := second.optionalChecks.trans first.optionalChecks
  closing := by rw [second.closing, first.closing, List.append_assoc]
  flaws := second.flaws.trans first.flaws

theorem meets_reportIf {condition : Bool} {problem : Problem} {position : Option Position}
    {arguments : List String} (closes : problem.isClosing = true) :
    Meets (if condition then report plan problem position arguments else pure ()) before
      (fun _ after => Finds before after (if condition then
        [{ problem, file := plan.grammar.fileName, position, arguments }] else [])) bad := by
  cases condition with
  | false => exact Finds.none before
  | true => exact (Finds.none before).report plan closes position arguments

theorem meets_checkLoop (check : Check) :
    Meets (checkLoop plan check) before
      (fun _ after => Finds before after (plan.loopFindings before.network check)) bad := by
  simp only [checkLoop, meets_bind, meets_network, Plan.loopFindings]
  cases plan.grammar.rules[check.rule]? with
  | none => exact Finds.none before
  | some rule =>
      have closes :
          (if rule.leftRecursive = true then Problem.emptyLeftRecursion else .emptyLoop).isClosing = true := by
        split <;> rfl
      have first := (Finds.none before).report plan closes rule.position [rule.name]
      cases (plan.lookahead before.network check.start (some check.exit)).contains emptyWord with
      | false => exact meets_reportIf rfl
      | true =>
          refine meets_bind.mpr (meets_report.mpr ?_)
          exact (meets_reportIf rfl).weaken (fun _ _ second => first.trans second) fun _ admitted => admitted

theorem meets_eachCheck {step : Check → Build Unit} {findings : Check → List Diagnostic}
    (checks : List Check) : ∀ {before : Construction}, (∀ check ∈ checks, ∀ current : Construction,
      current.network = before.network →
      Meets (step check) current (fun _ after => Finds current after (findings check)) bad) →
    Meets (checks.forM step) before (fun _ after => Finds before after (checks.flatMap findings)) bad := by
  induction checks with
  | nil =>
      intro before _
      exact Finds.none before
  | cons check rest ih =>
      intro before each
      rw [List.forall_mem_cons] at each
      simp only [List.forM, meets_bind]
      refine (each.1 before rfl).weaken ?_ fun _ admitted => admitted
      intro _ middle first
      refine (ih fun other member current same =>
        each.2 other member current (same.trans first.network)).weaken ?_ fun _ admitted => admitted
      intro _ after second
      exact first.trans second

theorem meets_checkLoops : Meets (checkLoops plan) before
    (fun _ after => Finds { before with loopChecks := #[] } after
      (before.loopChecks.toList.flatMap (plan.loopFindings before.network))) bad := by
  simp only [checkLoops, meets_bind, meets_get, meets_modify]
  refine meets_eachCheck _ fun check _ current same => ?_
  rw [← same]
  exact meets_checkLoop check

/-- The ways into the block that lead past it are counted when none of the others can match nothing. -/
theorem optionalFinding_bypasses {lookahead : StateId → IntervalSet} {exit : StateId} {count : Nat} :
    ∀ {targets : List StateId} {bypasses : Nat}, optionalFinding lookahead exit bypasses targets = .bypasses count →
    count = bypasses + targets.count exit
  | [], bypasses, found => by
      cases found
      simp
  | target :: rest, bypasses, found => by
      rw [optionalFinding] at found
      split at found
      · rename_i past
        rw [optionalFinding_bypasses found, past, List.count_cons_self]
        omega
      · rename_i inside
        split at found
        · cases found
        · rw [optionalFinding_bypasses found, List.count_cons_of_ne inside]

theorem meets_checkOptional {check : Check} (bypassed : before.network.Bypassed check) :
    Meets (checkOptional plan check) before
      (fun _ after => Finds before after (plan.optionalFindings before.network check)) bad := by
  obtain ⟨start, found, once⟩ := bypassed
  simp only [checkOptional, meets_bind]
  refine (meets_state found).mpr ?_
  simp only [meets_network, Plan.optionalFindings, found]
  split
  · rename_i known
    cases plan.grammar.rules[check.rule]? with
    | none => exact Finds.none before
    | some rule =>
        simp only [known]
        exact (Finds.none before).report plan rfl rule.position [rule.name]
  · rename_i known
    have single := optionalFinding_bypasses known
    rw [once] at single
    refine meets_ite.mpr ⟨fun _ => ?_, fun several => absurd (single.trans (Nat.zero_add 1)) several⟩
    cases plan.grammar.rules[check.rule]? with
    | none => exact Finds.none before
    | some rule =>
        simp only [known]
        exact Finds.none before

theorem meets_checkOptionals (bypassed : ∀ check ∈ before.optionalChecks.toList, before.network.Bypassed check) :
    Meets (checkOptionals plan) before (fun _ after => Finds { before with optionalChecks := #[] } after
      (before.optionalChecks.toList.flatMap (plan.optionalFindings before.network))) bad := by
  simp only [checkOptionals, meets_bind, meets_get, meets_modify]
  refine meets_eachCheck _ fun check member current same => ?_
  have there : current.network.Bypassed check := by
    rw [same]
    exact bypassed check member
  rw [← same]
  exact meets_checkOptional there

end Build

theorem Ways.mem_ids_of_entries {exit id : StateId} : ∀ {ways : Ways}, ways.Filled → id ∈ ways.entries exit →
    id ∈ ways.ids
  | .more way rest, filled, listed => by
      rcases List.mem_cons.mp listed with rfl | later
      · cases first : way.first? with
        | none => exact absurd (Trail.first?_eq_none.mp first) filled.1
        | some id => exact List.mem_append_left _ (Trail.first?_mem first)
      · exact List.mem_append_right _ (Ways.mem_ids_of_entries filled.2.2 later)

/-- An optional block has one way past it. -/
theorem Frame.count_startTargets {frame : Frame} (optional : frame.isOptional = true) {exit : StateId}
    {entries : List StateId} (apart : exit ∉ entries) : (frame.startTargets exit entries).count exit = 1 := by
  cases frame with
  | optional decision greedy => cases greedy <;> simp [Frame.startTargets, List.count_eq_zero.mpr apart]
  | _ => cases optional

/-- A block as it stands in the rule with number `index`: its start, and its alternatives up to its end. -/
structure Network.Lays (network : Network) (index : Nat) (frame : Frame) (block : Handle × Ways) : Prop where
  opens : network.state? block.1.left =
    some (frame.startState (some index) block.1.right (block.2.entries block.1.right))
  holds : network.Holds (block.2.layout network.ruleStarts (some index) block.1.right)
  filled : block.2.Filled
  distinct : block.1.left ≠ block.1.right
  apart : block.1.right ∉ block.2.ids
  callsBelow : ∀ label ∈ block.2.labels, ∀ callee, label.callee? = some callee → callee < network.ruleStarts.size

theorem Network.Lays.exit_not_mem {network : Network} {index : Nat} {frame : Frame} {block : Handle × Ways}
    (lays : network.Lays index frame block) : block.1.right ∉ block.2.entries block.1.right :=
  fun entered => lays.apart (Ways.mem_ids_of_entries lays.filled entered)

namespace Network.Houses

variable {network : Network} {others : Heap} {parts : List RulePart}

theorem lays (houses : network.Houses others parts) {index : Nat} {part : RulePart}
    (found : parts[index]? = some part) (filled : part.body.Filled) {kind : Frame → Bool} {block : Handle × Ways}
    (listed : block ∈ part.body.blocks kind) : ∃ frame, kind frame = true ∧ network.Lays index frame block := by
  obtain ⟨frame, rest, chosen, within⟩ := part.body.inside_of_blocks listed
  obtain ⟨next, holds⟩ := within.holds (houses.holds_body found)
  obtain ⟨around, inside⟩ := Network.holds_append.mp holds
  obtain ⟨single, _, _, apart, _⟩ := Trail.nodup_block.mp (within.ids.nodup (houses.nodup_body found))
  refine ⟨frame, chosen, around.startState, (Network.holds_append.mp inside).1, (within.filled filled).2.1, ?_,
    (apart block.1.right (by simp)).1, fun label member => ?_⟩
  · exact fun same => (List.nodup_cons.mp single).1 (same ▸ List.mem_cons_self)
  · exact houses.callsBelow found label (within.labels (List.mem_append_left _ member))

theorem bypassed (houses : network.Houses others parts) (filled : ∀ part ∈ parts, part.body.Filled) :
    ∀ check ∈ RulePart.checks Frame.isOptional 0 parts, network.Bypassed check := by
  intro check member
  obtain ⟨index, part, found, inside⟩ := RulePart.mem_checks.mp member
  obtain ⟨block, listed, rfl⟩ := List.mem_map.mp inside
  obtain ⟨frame, optional, lays⟩ := houses.lays found (filled part (List.mem_of_getElem? found)) listed
  refine ⟨_, lays.opens, ?_⟩
  simpa [Frame.startState, Function.comp_def] using Frame.count_startTargets optional lays.exit_not_mem

end Network.Houses

theorem RulePart.exists_of_forall₂ {parts : List RulePart} {relation : RulePart → Rule × Nat → Prop}
    {rules : Array Rule} (all : List.Forall₂ relation parts rules.toList.zipIdx) {index : Nat} {rule : Rule}
    (found : rules[index]? = some rule) : ∃ part, parts[index]? = some part ∧ relation part (rule, index) := by
  obtain ⟨bound, rfl⟩ := Array.getElem?_eq_some_iff.mp found
  have listed : index < rules.toList.zipIdx.length := by simpa using bound
  have inside : index < parts.length := all.length_eq ▸ listed
  refine ⟨parts[index], List.getElem?_eq_getElem inside, ?_⟩
  simpa using all.get inside listed

/-- The network is that of the plan: its rules have the bodies that are sketched for them. -/
structure Plan.Makes (plan : Plan) (network : Network) (others : Heap) (parts : List RulePart) : Prop where
  houses : network.Houses others parts
  draws : List.Forall₂ (RulePart.Draws plan) parts plan.grammar.rules.toList.zipIdx

namespace Plan.Makes

variable {plan : Plan} {network : Network} {others : Heap} {parts : List RulePart}

theorem length (makes : plan.Makes network others parts) : parts.length = plan.grammar.rules.size := by
  rw [makes.draws.length_eq, List.length_zipIdx, Array.length_toList]

theorem draws_part (makes : plan.Makes network others parts) {index : Nat} {part : RulePart}
    (found : parts[index]? = some part) :
    ∃ rule, plan.grammar.rules[index]? = some rule ∧ part.Draws plan (rule, index) := by
  obtain ⟨bound, rfl⟩ := List.getElem?_eq_some_iff.mp found
  have size : index < plan.grammar.rules.size := makes.length ▸ bound
  have listed : index < plan.grammar.rules.toList.zipIdx.length := by simpa using size
  have drawn := makes.draws.get bound listed
  refine ⟨plan.grammar.rules[index], Array.getElem?_eq_getElem size, ?_⟩
  simpa using drawn

theorem part_of_rule (makes : plan.Makes network others parts) {index : Nat} {rule : Rule}
    (found : plan.grammar.rules[index]? = some rule) :
    ∃ part, parts[index]? = some part ∧ part.Draws plan (rule, index) :=
  RulePart.exists_of_forall₂ makes.draws found

end Plan.Makes

/-- What the checks of a complete network report. -/
def Plan.findings (plan : Plan) (network : Network) (parts : List RulePart) : List Diagnostic :=
  (RulePart.checks Frame.isLoop 0 parts).flatMap (plan.loopFindings network) ++
    match plan.kind with
    | .parser => (RulePart.checks Frame.isOptional 0 parts).flatMap (plan.optionalFindings network)
    | .lexer => []

/-- What holds of the parts of rules, whatever leaves their ends, holds of those that are the same inside. -/
theorem RulePart.forall₂_of_inside {parts current : List RulePart} {relation : RulePart → Rule × Nat → Prop}
    (transfers : ∀ {part other : RulePart} {entry : Rule × Nat}, other.inside = part.inside → relation part entry →
      relation other entry)
    (same : current.map RulePart.inside = parts.map RulePart.inside) {entries : List (Rule × Nat)}
    (all : List.Forall₂ relation parts entries) : List.Forall₂ relation current entries := by
  induction all generalizing current with
  | nil =>
      obtain rfl : current = [] := by simpa using same
      exact .nil
  | cons first _ ih =>
      cases current with
      | nil => cases same
      | cons part current =>
          rw [List.map_cons, List.map_cons, List.cons.injEq] at same
          exact .cons (transfers same.1 first) (ih same.2)

theorem RulePart.Draws.of_inside {plan : Plan} {part other : RulePart} {entry : Rule × Nat}
    (same : other.inside = part.inside) (draws : part.Draws plan entry) : other.Draws plan entry := by
  obtain ⟨_, _, leftRecursive, body, _⟩ := RulePart.mk.inj same
  exact ⟨body ▸ draws.body, leftRecursive.trans draws.leftRecursive⟩

theorem RulePart.Stamped.of_inside {plan : Plan} {construction : Construction} {part other : RulePart}
    {entry : Rule × Nat} (same : other.inside = part.inside) (stamped : part.Stamped plan construction entry) :
    other.Stamped plan construction entry := by
  obtain ⟨start, stop, _, body, _⟩ := RulePart.mk.inj same
  obtain ⟨stays, painted, apart, means⟩ := stamped
  exact ⟨body ▸ stays, body ▸ painted, fun stamp listed => start ▸ stop ▸ apart stamp listed, body ▸ means⟩

/-- Why the rules of a plan cannot be built. -/
def Plan.faults (plan : Plan) : List Failure :=
  plan.grammar.rules.toList.flatMap fun rule => plan.bodyFaults rule.body

theorem RulePart.filled_of_draws {plan : Plan} {parts : List RulePart} {entries : List (Rule × Nat)}
    (draws : List.Forall₂ (RulePart.Draws plan) parts entries) : ∀ part ∈ parts, part.body.Filled := by
  induction draws with
  | nil => simp
  | cons first _ ih =>
      refine List.forall_mem_cons.mpr ⟨?_, ih⟩
      exact (Trail.filled_erase _).mp (Plan.sketched_body first.body).solid.filled

namespace Build

variable {plan : Plan} {journal : Journal} {others : Heap} {before : Construction}

/-- The rules are built one after the other, between starts and ends that are all there. -/
theorem meets_allRules (progress : Progress journal before others []) (unmarked : before.elementStates = [])
    {good : Unit → Construction → Prop}
    (next : ∀ parts after, Progress journal after others parts → (∀ part ∈ parts, part.exits = []) →
      List.Forall₂ (RulePart.Draws plan) parts plan.grammar.rules.toList.zipIdx →
      Framed (RulePart.joints parts)
        (ruleAssemblies plan (Build.after (newRules plan) before) plan.grammar.rules.toList.zipIdx) →
      List.Forall₂ (RulePart.Stamped plan after) parts plan.grammar.rules.toList.zipIdx → good () after) :
    Meets (newRules plan) before (fun _ middle => Meets (rules plan) middle good (· ∈ plan.faults))
      (· ∈ plan.faults) := by
  refine ((meets_newRules plan.grammar.rules.toList progress (by simp)).both
    ((vets_newRules : Vets plan [] _) before)).run.weaken ?_ fun _ admitted => admitted
  rintro _ middle ⟨ends, ⟨parts, opens, started⟩, vetted⟩
  have none : middle.elementStates = [] := vetted.marks.same.trans unmarked
  have reached : Build.after (newRules plan) before = middle := after_of_ok ends
  have count : ([] ++ parts).length = plan.grammar.rules.size := by
    rw [List.nil_append, opens.length_eq, Array.length_toList]
  refine (meets_rules plan.grammar.rules.toList started opens count (by simp [Construction.Backed, none])
    (by simp [RulePart.Apart, none])).weaken ?_ fun _ listed => listed
  rintro _ after ⟨_, drawn, draws, bare, framed, stamped, done⟩
  exact next drawn after done bare draws (by rwa [reached]) stamped

/-- What is done before the bodies of the rules are built. -/
def opening (plan : Plan) : Build Unit :=
  match plan.kind with
  | .parser => newRules plan
  | .lexer => do
      plan.grammar.modes.forM newMode
      let types := plan.grammar.rules.toList.map fun rule => plan.grammar.tokenType rule.name
      modifyNetwork fun network => { network with ruleTokenTypes := types }
      newRules plan

/-- The blocks of the grammar in the order of their construction, each after those inside it. -/
def assemblies (plan : Plan) (journal : Journal) : List Assembly :=
  ruleAssemblies plan (Build.after (opening plan) (plan.start journal)) plan.grammar.rules.toList.zipIdx

/-- What leaves the ends of the rules: in a parser the ways back to their calls or the end of the input, at a
state that only this leads to, and in a lexer nothing. -/
def Linked (kind : GrammarKind) (network : Network) (others : Heap) (parts : List RulePart) : Prop :=
  match kind with
  | .parser => ∃ sink, others = [(sink, { rule := none, kind := .basic })] ∧
      ∀ index part, parts[index]? = some part → part.exits = ruleExits network.calls sink index
  | .lexer => ∀ part ∈ parts, part.exits = []

/-- What the construction of a lexer has come to besides its rules. -/
structure Dispatched (plan : Plan) (journal : Journal) (network : Network) (after : Construction) (others : Heap)
    (parts : List RulePart) : Prop where
  entries : others = modeEntries 0 (plan.grammar.modes.map (plan.modeTargets parts))
  modes : network.modeStarts.toList = List.range plan.grammar.modes.length
  types : network.ruleTokenTypes = plan.grammar.rules.toList.map fun rule => plan.grammar.tokenType rule.name
  conflicts : after.journal.conflicts = journal.conflicts ++
    plan.grammar.rules.toList.flatMap fun rule => rule.conflicts plan.grammar.fileName

/-- What a complete construction has come to. -/
structure Completion (plan : Plan) (journal : Journal) (network : Network) (after : Construction) (others : Heap)
    (parts : List RulePart) : Prop where
  makes : plan.Makes network others parts
  closing : after.journal.closing = journal.closing ++ plan.findings network parts
  flaws : journal.flaws + RulePart.gaps parts ≤ after.journal.flaws
  linked : Linked plan.kind network others parts
  framed : Framed (RulePart.joints parts) (assemblies plan journal)
  stamped : List.Forall₂ (RulePart.Stamped plan after) parts plan.grammar.rules.toList.zipIdx
  dispatched : plan.kind = .lexer → Dispatched plan journal network after others parts

def Completes (plan : Plan) (journal : Journal) (network : Network) (after : Construction) : Prop :=
  ∃ others parts, Completion plan journal network after others parts

theorem meets_parserNetwork (parser : plan.kind = .parser) :
    Meets (parserNetwork plan) (plan.start journal) (Completes plan journal) (· ∈ plan.faults) := by
  simp only [parserNetwork, meets_bind]
  refine meets_allRules (plan.progress_start journal) rfl fun parts built progress bare draws framed stamped => ?_
  refine ((meets_addFollowLinks progress bare).both (vets_addFollowLinks plan built)).weaken ?_
    fun _ admitted => admitted
  rintro _ linked ⟨⟨settled, keeps⟩, marksLinks⟩
  refine ((meets_addEntryEnds settled).both (vets_addEntryEnds plan linked)).weaken ?_
    fun _ admitted => admitted
  rintro _ ended ⟨⟨sink, ⟨current, progress, same, left⟩, calls⟩, marksEnds⟩
  simp only [meets_get, meets_note]
  refine (meets_checkLoops.both (vets_checkLoops _)).weaken ?_ fun _ admitted => admitted
  rintro _ looped ⟨first, marksLoops⟩
  have drawn := RulePart.forall₂_of_inside .of_inside same draws
  have bypassed := progress.houses.bypassed (RulePart.filled_of_draws drawn)
  rw [← progress.optionalChecks] at bypassed
  refine ((meets_checkOptionals ?_).both (vets_checkOptionals looped)).weaken ?_ fun _ admitted => admitted
  · rw [first.network, first.optionalChecks]
    exact bypassed
  · rintro _ after ⟨second, marksOptionals⟩
    have network : after.network = ended.network := second.network.trans first.network
    refine ⟨[(sink, { rule := none, kind := .basic })], current, ⟨?_, drawn⟩, ?_, ?_, ?_, ?_, ?_, ?_⟩
    · rw [network]
      exact progress.houses
    · rw [second.closing, first.closing, Plan.findings, parser, second.network, first.network,
        first.optionalChecks]
      simp [progress.closing, progress.loopChecks, progress.optionalChecks]
    · rw [second.flaws, first.flaws]
      exact Journal.flaws_flawed .. ▸ (progress.journal.trans (.note ..)).flaws
    · rw [parser]
      refine ⟨sink, rfl, fun index part found => ?_⟩
      rw [left index part found, network, calls, keeps.calls]
      rfl
    · rw [RulePart.joints_of_inside same, assemblies, opening, parser]
      exact framed
    · have linking := marksEnds.marks.same.trans marksLinks.marks.same
      have checking : after.elementStates = ended.elementStates :=
        marksOptionals.marks.same.trans marksLoops.marks.same
      have commands : built.commandStates ⊆ after.commandStates :=
        List.Subset.trans (List.Subset.trans marksLinks.marks.commands marksEnds.marks.commands)
          (List.Subset.trans marksLoops.marks.commands marksOptionals.marks.commands)
      refine RulePart.forall₂_of_inside .of_inside same (stamped.imp fun _ _ first => ?_)
      exact first.of_same (checking.trans linking) commands
    · intro lexer
      rw [parser] at lexer
      cases lexer

/-- The rules of a lexer are built next to the entries of its modes, and the commands in them are checked. -/
theorem meets_lexerRules (lexer : plan.kind = .lexer) {targets : List (List StateId)}
    (dispatches : Dispatches journal targets [] before) (unused : before.usedCommands = [])
    (unmarked : before.elementStates = []) :
    Meets (do newRules plan; rules plan) before
      (fun _ after => (∃ parts, Dispatches journal targets parts after ∧ (∀ part ∈ parts, part.exits = []) ∧
        List.Forall₂ (RulePart.Draws plan) parts plan.grammar.rules.toList.zipIdx ∧
        Framed (RulePart.joints parts)
          (ruleAssemblies plan (Build.after (newRules plan) before) plan.grammar.rules.toList.zipIdx) ∧
        List.Forall₂ (RulePart.Stamped plan after) parts plan.grammar.rules.toList.zipIdx) ∧
        Reviewed plan plan.grammar.rules.toList before after) (· ∈ plan.faults) := by
  have reviewed : Meets (do newRules plan; rules plan) before
      (fun _ after => Reviewed plan plan.grammar.rules.toList before after) fun _ => True := by
    rw [meets_bind]
    refine (vets_newRules before).weaken (fun _ middle vetted => ?_) fun _ => id
    have started : middle.usedCommands = [] := vetted.used.trans (congrArg (· ++ []) unused)
    refine (meets_reviewedGrammar lexer started).weaken (fun _ after reviewed => ?_) fun _ => id
    refine ⟨vetted.tables.trans reviewed.tables, reviewed.unused, ?_⟩
    rw [reviewed.conflicts, vetted.conflicts, conflictReports, List.append_nil]
  have built : Meets (do newRules plan; rules plan) before
      (fun _ after => ∃ parts, Progress journal after (modeEntries 0 targets) parts ∧
        (∀ part ∈ parts, part.exits = []) ∧
        List.Forall₂ (RulePart.Draws plan) parts plan.grammar.rules.toList.zipIdx ∧
        Framed (RulePart.joints parts)
          (ruleAssemblies plan (Build.after (newRules plan) before) plan.grammar.rules.toList.zipIdx) ∧
        List.Forall₂ (RulePart.Stamped plan after) parts plan.grammar.rules.toList.zipIdx)
      (· ∈ plan.faults) := by
    rw [meets_bind]
    exact meets_allRules dispatches.progress unmarked fun parts after progress bare draws framed stamped =>
      ⟨parts, progress, bare, draws, framed, stamped⟩
  refine (built.both reviewed).weaken ?_ fun _ admitted => admitted
  rintro _ after ⟨⟨parts, progress, bare, draws, framed, stamped⟩, reviewed⟩
  refine ⟨⟨parts, ⟨progress, ?_⟩, bare, draws, framed, stamped⟩, reviewed⟩
  rw [reviewed.tables.modes]
  exact dispatches.modes

theorem meets_lexerNetwork (lexer : plan.kind = .lexer) :
    Meets (lexerNetwork plan) (plan.start journal) (Completes plan journal) (· ∈ plan.faults) := by
  simp only [lexerNetwork, meets_bind]
  refine (meets_newModes plan.grammar.modes (.start plan journal)).run.weaken ?_ fun _ admitted => admitted
  rintro _ opened ⟨ends, entered⟩
  rw [Nat.zero_add] at entered
  simp only [meets_modifyNetwork, meets_get, meets_note, meets_network]
  have typed : Dispatches journal (List.replicate plan.grammar.modes.length []) [] { opened with
      network := { opened.network with
        ruleTokenTypes := plan.grammar.rules.toList.map fun rule => plan.grammar.tokenType rule.name } } :=
    ⟨⟨entered.progress.houses.congr rfl rfl rfl rfl rfl, entered.progress.loopChecks,
      entered.progress.optionalChecks, entered.progress.journal⟩, entered.modes⟩
  rw [← meets_bind]
  refine (meets_lexerRules lexer typed entered.unused entered.unmarked).weaken ?_ fun _ admitted => admitted
  rintro _ built ⟨⟨parts, dispatches, bare, draws, framed, stamped⟩, reviewed⟩
  have prepared : Dispatches journal ([] ++ List.replicate plan.grammar.modes.length []) parts { built with
      network := { built.network with lexerActions := built.actions }
      journal := built.journal.note (.actionsCollected plan.grammar.name built.actions.size) } :=
    ⟨⟨dispatches.progress.houses.congr rfl rfl rfl rfl rfl, dispatches.progress.loopChecks,
      dispatches.progress.optionalChecks, dispatches.progress.journal.trans (.note ..)⟩, dispatches.modes⟩
  refine ((meets_linkModes plan.grammar.modes prepared).both (vets_forM (fun _ _ => vets_linkMode) _)).weaken ?_
    fun _ admitted => admitted
  rintro _ linked ⟨⟨progress, modes⟩, vetted⟩
  refine (meets_checkLoops.both (vets_checkLoops _)).weaken ?_ fun _ admitted => admitted
  rintro _ after ⟨finds, checked⟩
  refine ⟨_, parts, ⟨?_, draws⟩, ?_, ?_, ?_, ?_, ?_, fun _ => ⟨rfl, ?_, ?_, ?_⟩⟩
  · rw [finds.network]
    exact progress.houses
  · rw [finds.closing, Plan.findings, lexer, finds.network]
    simp [progress.closing, progress.loopChecks]
  · rw [finds.flaws]
    exact Journal.flaws_flawed .. ▸ (progress.journal.trans (.note ..)).flaws
  · rw [lexer]
    exact bare
  · rw [assemblies, opening, lexer]
    simp only [after_bind ends]
    exact framed
  · exact stamped.imp fun _ _ first => first.of_same (checked.marks.same.trans vetted.marks.same)
      (List.Subset.trans vetted.marks.commands checked.marks.commands)
  · rw [finds.network, modes, List.nil_append, List.length_map]
  · rw [checked.tables.types, vetted.tables.types, reviewed.tables.types]
  · rw [checked.conflicts, Journal.conflicts_note, vetted.conflicts, Journal.conflicts_note, reviewed.conflicts,
      entered.conflicts, conflictReports, conflictReports, List.append_nil, List.append_nil]

/-- A construction fails only for a fault of the plan. When it ends well, its network is that of the plan, and
what the checks find in it is reported. -/
theorem meets_complete (plan : Plan) (journal : Journal) :
    Meets (complete plan) (plan.start journal) (Completes plan journal) (· ∈ plan.faults) := by
  unfold complete
  cases kind : plan.kind with
  | lexer => exact meets_lexerNetwork kind
  | parser => exact meets_parserNetwork kind

end Build

namespace Plan

variable {plan : Plan} {journal : Journal} {after : Construction}

theorem completes_of_run {network : Network} (ends : plan.run journal = .ok network after) :
    Build.Completes plan journal network after := by
  have meets := Build.meets_complete plan journal
  unfold Plan.run EStateM.run at ends
  rwa [Build.Meets, ends] at meets

theorem fault_of_run {failure : Failure} (ends : plan.run journal = .error failure after) :
    failure ∈ plan.faults := by
  have meets := Build.meets_complete plan journal
  unfold Plan.run EStateM.run at ends
  rwa [Build.Meets, ends] at meets

end Plan

end GrammarNetwork
