import GrammarNetwork.Proofs.Rules
import GrammarNetwork.Proofs.Vetting

/-! The modes of a lexer. The entry of each is made before all rules; when these are there, it is led to those that are
its own. -/

namespace GrammarNetwork

theorem Plan.houses_start (plan : Plan) (journal : Journal) : (plan.start journal).network.Houses [] [] where
  stands :=
    { exact := by simp [Plan.start, Network.state?, RulePart.heaps]
      unique := List.nodup_nil
      decides := by simp [Plan.start, Heap.Decides, RulePart.heaps] }
  starts := rfl
  stops := rfl
  modes := by simp [Plan.start]
  neutral := by simp
  calls := by simp
  exits := by simp

theorem Plan.progress_start (plan : Plan) (journal : Journal) : Progress journal (plan.start journal) [] [] where
  houses := plan.houses_start journal
  loopChecks := rfl
  optionalChecks := rfl
  journal := .refl journal

/-- The network with the entry of a mode. -/
def Network.addMode (network : Network) : Network :=
  let added := network.addState { rule := none, kind := .tokensStart }
  { added with modeStarts := added.modeStarts.push network.nextId }

namespace Network.Houses

variable {network : Network} {others : Heap} {parts : List RulePart}

theorem addOther (houses : network.Houses others parts) (kind : StateKind)
    (bare : kind = .basic ∨ kind = .tokensStart) :
    (network.addState { rule := none, kind }).Houses (others ++ [(network.nextId, { rule := none, kind })])
      parts where
  stands := by
    refine (houses.stands.addState { rule := none, kind } rfl).perm ?_
    rw [List.append_assoc, List.append_assoc]
    exact List.perm_append_comm.append_left _
  starts := houses.starts
  stops := houses.stops
  modes id member := by
    rw [Heap.ids_append]
    exact List.mem_append_left _ (houses.modes id member)
  neutral := by
    rw [List.forall_mem_append, List.forall_mem_singleton]
    exact ⟨houses.neutral, rfl, bare, by simp⟩
  calls := houses.calls
  exits part member transition listed := by
    obtain ⟨plain, live⟩ := houses.exits part member transition listed
    refine ⟨plain, ?_⟩
    obtain ⟨state, found⟩ := network.isLive_iff.mp live
    refine Network.isLive_iff _ |>.mpr ⟨state, ?_⟩
    rw [Network.state?_addState, if_neg (Nat.ne_of_lt (network.lt_nextId_of_state? found)), found]

/-- The states of no rule are changed, but stay neutral. -/
theorem changeOther (houses : network.Houses others parts) {changed : Network} (id : StateId)
    (change : State → State) (member : id ∈ others.ids)
    (stands : Stands changed ((others ++ RulePart.heaps network.ruleStarts 0 parts).modify id change))
    (keeps : ∀ state : State, state.IsNeutral network.ruleStarts → (change state).IsNeutral network.ruleStarts)
    (starts : changed.ruleStarts = network.ruleStarts) (stops : changed.ruleStops = network.ruleStops)
    (modes : changed.modeStarts = network.modeStarts) : changed.Houses (others.modify id change) parts where
  stands := by
    have unique := houses.stands.unique
    rw [Heap.ids_append] at unique
    have apart : id ∉ (RulePart.heaps network.ruleStarts 0 parts).ids := fun inside =>
      (List.nodup_append.mp unique).2.2 id member id inside rfl
    rwa [Heap.modify_append, Heap.modify_of_notMem apart, ← starts] at stands
  starts := by rw [starts, houses.starts]
  stops := by rw [stops, houses.stops]
  modes := by
    rw [modes, Heap.ids_modify]
    exact houses.modes
  neutral := by
    rintro ⟨other, state⟩ inside
    rw [starts]
    rcases Heap.mem_modify.mp inside with ⟨_, old⟩ | ⟨_, state, old, rfl⟩
    · exact houses.neutral _ old
    · exact keeps state (houses.neutral _ old)
  calls := houses.calls
  exits part listed transition leaves := by
    obtain ⟨plain, live⟩ := houses.exits part listed transition leaves
    refine ⟨plain, stands.isLive ?_⟩
    rw [Heap.ids_modify]
    obtain ⟨state, found⟩ := network.isLive_iff.mp live
    exact Heap.mem_ids_of_mem ((houses.stands.exact _ state).mp found)

theorem addMode (houses : network.Houses others parts) :
    network.addMode.Houses (others ++ [(network.nextId, { rule := none, kind := .tokensStart })]) parts := by
  obtain ⟨stands, starts, stops, modes, neutral, calls, exits⟩ := houses.addOther .tokensStart (Or.inr rfl)
  refine ⟨stands.congr rfl rfl, starts, stops, fun other listed => ?_, neutral, calls, exits⟩
  rcases Array.mem_push.mp listed with old | rfl
  · exact modes other old
  · simp

theorem decideOther (houses : network.Houses others parts) {id : StateId} {state : State}
    (member : (id, state) ∈ others) (undecided : state.decision = none) :
    (network.pushDecision id).Houses
      (others.modify id fun state => { state with decision := some network.decisions.size }) parts := by
  refine houses.changeOther id _ (Heap.mem_ids_of_mem member) ?_ ?_ rfl rfl rfl
  · exact houses.stands.pushDecision (List.mem_append_left _ member) undecided
  · exact fun state neutral => ⟨neutral.rule, neutral.kind, neutral.transitions⟩

theorem linkOther (houses : network.Houses others parts) {id start : StateId} (member : id ∈ others.ids)
    (known : start ∈ network.ruleStarts) :
    (network.addTransition id ⟨start, .epsilon⟩).Houses (others.modify id (State.extend start)) parts := by
  refine houses.changeOther id _ member ?_ ?_ rfl rfl rfl
  · exact houses.stands.modifyState id (State.extend start) fun _ => rfl
  · rintro state ⟨rule, kind, transitions⟩
    refine ⟨rule, kind, fun transition listed => ?_⟩
    rcases List.mem_append.mp listed with old | new
    · exact transitions transition old
    · exact ⟨start, known, List.mem_singleton.mp new⟩

theorem isLive_other (houses : network.Houses others parts) {id : StateId} (member : id ∈ others.ids) :
    network.isLive id = true :=
  houses.stands.isLive (by simp [member])

theorem state?_other (houses : network.Houses others parts) {id : StateId} {state : State}
    (member : (id, state) ∈ others) : network.state? id = some state :=
  (houses.stands.exact id state).mpr (List.mem_append_left _ member)

end Network.Houses

/-- The entry of a mode: a decision between these states. -/
def State.entry (decision : Nat) (targets : List StateId) : State where
  rule := none
  kind := .tokensStart
  transitions := targets.map .silent
  decision := some decision

/-- The entries of modes from the one with this number on, as they are in a network that has nothing before them. -/
def modeEntries : Nat → List (List StateId) → Heap
  | _, [] => []
  | number, targets :: rest => (number, .entry number targets) :: modeEntries (number + 1) rest

section Entries

theorem modeEntries_append (first second : List (List StateId)) : ∀ number : Nat,
    modeEntries number (first ++ second) = modeEntries number first ++ modeEntries (number + first.length) second := by
  induction first with
  | nil => exact fun number => rfl
  | cons targets rest ih =>
      intro number
      rw [List.cons_append, modeEntries, ih, modeEntries, List.cons_append, List.length_cons, Nat.add_assoc,
        Nat.add_comm 1]

theorem ids_modeEntries (targets : List (List StateId)) : ∀ number : Nat,
    (modeEntries number targets).ids = List.range' number targets.length := by
  induction targets with
  | nil => exact fun number => rfl
  | cons first rest ih =>
      intro number
      rw [modeEntries, Heap.ids_cons, ih, List.length_cons, List.range'_succ]

theorem mem_modeEntries {targets : List (List StateId)} {id : StateId} {state : State} : ∀ {number : Nat},
    (id, state) ∈ modeEntries number targets ↔
      ∃ index listed, targets[index]? = some listed ∧ id = number + index ∧ state = .entry id listed := by
  induction targets with
  | nil => simp [modeEntries]
  | cons first rest ih =>
      intro number
      rw [modeEntries, List.mem_cons, ih]
      constructor
      · rintro (here | ⟨index, listed, found, rfl, rfl⟩)
        · cases here
          exact ⟨0, first, rfl, rfl, rfl⟩
        · exact ⟨index + 1, listed, found, Nat.add_right_comm .., rfl⟩
      · rintro ⟨index, listed, found, rfl, rfl⟩
        cases index with
        | zero =>
            cases found
            exact Or.inl rfl
        | succ index => exact Or.inr ⟨index, listed, found, Nat.add_right_comm number index 1, rfl⟩

theorem notMem_ids_modeEntries (targets : List (List StateId)) : targets.length ∉ (modeEntries 0 targets).ids := by
  rw [ids_modeEntries, List.mem_range'_1]
  omega

/-- A new entry leads nowhere. -/
theorem modify_newEntry (targets : List (List StateId)) :
    Heap.modify (modeEntries 0 targets ++ [(targets.length, { rule := none, kind := .tokensStart })]) targets.length
      (fun state => { state with decision := some targets.length }) = modeEntries 0 (targets ++ [[]]) := by
  rw [Heap.modify_append, Heap.modify_of_notMem (notMem_ids_modeEntries targets), Heap.modify_cons, if_pos rfl,
    modeEntries_append, Nat.zero_add]
  rfl

/-- Only the entry with this number leads to one more state. -/
theorem modify_modeEntries (done rest : List (List StateId)) (targets : List StateId) (start : StateId) :
    (modeEntries 0 (done ++ targets :: rest)).modify done.length (State.extend start) =
      modeEntries 0 (done ++ (targets ++ [start]) :: rest) := by
  have behind : done.length ∉ (modeEntries (done.length + 1) rest).ids := by
    rw [ids_modeEntries, List.mem_range'_1]
    omega
  have extended : State.extend start (.entry done.length targets) = .entry done.length (targets ++ [start]) := by
    simp only [State.extend, State.entry, List.map_append, List.map_singleton]
  rw [modeEntries_append, modeEntries_append, Nat.zero_add, Heap.modify_append,
    Heap.modify_of_notMem (notMem_ids_modeEntries done), modeEntries, modeEntries, Heap.modify_cons, if_pos rfl,
    extended, Heap.modify_of_notMem behind]

end Entries

/-- The starts of the rules of a mode that are no fragments. -/
def Plan.modeTargets (plan : Plan) (parts : List RulePart) (mode : String) : List StateId :=
  ((plan.grammar.modeRules mode).filter fun entry => !entry.1.isFragment).filterMap fun entry =>
    parts[entry.2]?.map RulePart.start

/-- The entries of the modes lead to these targets. -/
structure Dispatches (journal : Journal) (targets : List (List StateId)) (parts : List RulePart)
    (construction : Construction) : Prop where
  progress : Progress journal construction (modeEntries 0 targets) parts
  modes : construction.network.modeStarts.toList = List.range targets.length

/-- There are entries of this many modes and nothing else. -/
structure Entered (journal : Journal) (count : Nat) (construction : Construction) : Prop
    extends Dispatches journal (List.replicate count []) [] construction where
  nextId : construction.network.nextId = count
  decisions : construction.network.decisions.size = count
  unused : construction.usedCommands = []
  unmarked : construction.elementStates = []
  conflicts : construction.journal.conflicts = journal.conflicts

theorem Entered.start (plan : Plan) (journal : Journal) : Entered journal 0 (plan.start journal) where
  progress := plan.progress_start journal
  modes := rfl
  nextId := rfl
  decisions := rfl
  unused := rfl
  unmarked := rfl
  conflicts := rfl

namespace Build

variable {plan : Plan} {journal : Journal} {before : Construction} {bad : Failure → Prop}

theorem meets_newMode {count : Nat} (entered : Entered journal count before) (mode : String) :
    Meets (newMode mode) before (fun _ after => Entered journal (count + 1) after) bad := by
  obtain ⟨⟨progress, modes⟩, rfl, decisions, unused, unmarked, conflicts⟩ := entered
  have opened := progress.houses.addMode
  have member := List.mem_append_right (modeEntries 0 (List.replicate before.network.nextId []))
    (List.mem_singleton_self (before.network.nextId, ({ rule := none, kind := .tokensStart } : State)))
  have live : before.network.addMode.state? before.network.nextId = _ := opened.state?_other member
  have entry := modify_newEntry (List.replicate before.network.nextId [])
  rw [List.length_replicate, ← List.replicate_succ'] at entry
  have decided := opened.decideOther member rfl
  have number : before.network.addMode.decisions.size = before.network.nextId := decisions
  rw [number, entry] at decided
  simp only [newMode, meets_bind, meets_newStateIn, meets_modifyNetwork]
  refine (meets_defineDecision live rfl).mpr (meets_note.mpr ?_)
  refine ⟨⟨⟨decided, progress.loopChecks, progress.optionalChecks, ?_⟩, ?_⟩, ?_, ?_, unused, unmarked, ?_⟩
  · exact (progress.journal.trans (.note ..)).trans (.note ..)
  · rw [List.length_replicate] at modes ⊢
    rw [List.range_succ, ← modes]
    exact Array.toList_push ..
  · exact (Network.nextId_modifyState ..).trans (Network.nextId_addState ..)
  · exact (Array.size_push ..).trans (congrArg (· + 1) decisions)
  · rw [Journal.conflicts_note, Journal.conflicts_note]
    exact conflicts

theorem meets_newModes (modes : List String) : ∀ {before : Construction} {count : Nat}, Entered journal count before →
    Meets (modes.forM newMode) before (fun _ after => Entered journal (count + modes.length) after) bad := by
  induction modes with
  | nil => exact fun entered => entered
  | cons mode rest ih =>
      intro before count entered
      simp only [List.forM, meets_bind]
      refine (meets_newMode entered mode).weaken (fun _ middle entered => ?_) fun _ admitted => admitted
      rw [List.length_cons, Nat.add_comm rest.length, ← Nat.add_assoc]
      exact ih entered

variable {parts : List RulePart} {done rest : List (List StateId)}

theorem mem_ids_dispatches (targets : List StateId) : done.length ∈ (modeEntries 0 (done ++ targets :: rest)).ids := by
  rw [ids_modeEntries, List.mem_range'_1, List.length_append, List.length_cons]
  omega

theorem dispatches_link {targets : List StateId}
    (dispatches : Dispatches journal (done ++ targets :: rest) parts before) {part : RulePart} (listed : part ∈ parts) :
    Dispatches journal (done ++ (targets ++ [part.start]) :: rest) parts
      { before with network := before.network.addTransition done.length ⟨part.start, .epsilon⟩ } := by
  obtain ⟨⟨houses, loopChecks, optionalChecks, flaws⟩, modes⟩ := dispatches
  have known : part.start ∈ before.network.ruleStarts := by
    rw [← Array.mem_toList_iff, houses.starts]
    exact List.mem_map_of_mem listed
  have linked := houses.linkOther (mem_ids_dispatches targets) known
  rw [modify_modeEntries] at linked
  refine ⟨⟨linked, loopChecks, optionalChecks, flaws⟩, ?_⟩
  rw [List.length_append, List.length_cons] at modes ⊢
  exact modes

/-- The entry of a mode leads on to those of these rules that are no fragments. -/
theorem meets_linkRules (entries : List (Rule × Nat)) : ∀ {before : Construction} {targets : List StateId},
    Dispatches journal (done ++ targets :: rest) parts before →
    Meets (entries.forM fun entry => do
        if !entry.1.isFragment then
          match (← network).ruleStarts[entry.2]? with
          | some ruleStart => epsilon done.length ruleStart
          | none => pure ()) before
      (fun _ after => Dispatches journal (done ++ (targets ++
        (entries.filter fun entry => !entry.1.isFragment).filterMap fun entry =>
          parts[entry.2]?.map RulePart.start) :: rest) parts after) bad := by
  induction entries with
  | nil =>
      intro before targets dispatches
      rwa [List.filter_nil, List.filterMap_nil, List.append_nil]
  | cons entry others ih =>
      intro before targets dispatches
      have houses := dispatches.progress.houses
      simp only [List.forM, meets_bind, meets_ite, meets_network, meets_pure, List.filter_cons]
      constructor
      · intro plain
        rw [houses.ruleStarts_getElem?, if_pos plain, List.filterMap_cons]
        cases found : parts[entry.2]? with
        | none => exact ih dispatches
        | some part =>
            refine (meets_epsilon (houses.isLive_other (mem_ids_dispatches targets))).mpr ?_
            have later := ih (dispatches_link dispatches (List.mem_of_getElem? found))
            rwa [List.append_assoc, List.singleton_append] at later
      · intro fragment
        rw [if_neg fragment]
        exact ih dispatches

theorem meets_linkMode (mode : String) (dispatches : Dispatches journal (done ++ [] :: rest) parts before) :
    Meets (linkMode plan mode done.length) before
      (fun _ after => Dispatches journal (done ++ plan.modeTargets parts mode :: rest) parts after) bad := by
  have entry : before.network.modeStarts[done.length]? = some done.length := by
    rw [← Array.getElem?_toList, dispatches.modes, List.length_append, List.length_cons]
    exact List.getElem?_range (by omega)
  simp only [linkMode, meets_bind, meets_network, entry]
  exact meets_linkRules (plan.grammar.modeRules mode) dispatches

theorem meets_linkModes (modes : List String) : ∀ {before : Construction} {done : List (List StateId)},
    Dispatches journal (done ++ List.replicate modes.length []) parts before →
    Meets ((modes.zipIdx done.length).forM fun entry => linkMode plan entry.1 entry.2) before
      (fun _ after => Dispatches journal (done ++ modes.map (plan.modeTargets parts)) parts after) bad := by
  induction modes with
  | nil => exact fun dispatches => dispatches
  | cons mode rest ih =>
      intro before done dispatches
      simp only [List.zipIdx_cons, List.forM, meets_bind]
      refine (meets_linkMode mode dispatches).weaken (fun _ middle linked => ?_) fun _ admitted => admitted
      rw [List.append_cons] at linked
      have later := ih linked
      rwa [List.length_append, List.length_singleton, List.append_assoc, List.singleton_append] at later

end Build

end GrammarNetwork
