import GrammarNetwork.Construction.Complete
import GrammarNetwork.Proofs.Elements

/-! Whole networks: what there is besides the rules, and a part for each rule, which is the start and the end
of the rule with the trail of its body between them. -/

namespace GrammarNetwork

/-- The network consists of the states of the heap, and every decision is the state that has its number. -/
structure Stands (network : Network) (heap : Heap) : Prop where
  exact : ∀ id state, network.state? id = some state ↔ (id, state) ∈ heap
  unique : heap.ids.Nodup
  decides : ∀ number id, network.decisions[number]? = some id ↔ heap.Decides id number

namespace Stands

variable {network : Network} {heap : Heap}

theorem perm {other : Heap} (stands : Stands network heap) (same : heap.Perm other) :
    Stands network other where
  exact id state := by rw [stands.exact id state, same.mem_iff]
  unique := (same.map Prod.fst).nodup_iff.mp stands.unique
  decides number id := by simp only [stands.decides number id, Heap.Decides, same.mem_iff]

theorem congr {other : Network} (stands : Stands network heap) (states : other.states = network.states)
    (decisions : other.decisions = network.decisions) : Stands other heap where
  exact id state := by
    rw [← stands.exact id state]
    simp [Network.state?, states]
  unique := stands.unique
  decides := by rw [decisions]; exact stands.decides

theorem below (stands : Stands network heap) {id : StateId} (member : id ∈ heap.ids) :
    id < network.nextId := by
  obtain ⟨state, inside⟩ := Heap.mem_ids.mp member
  exact network.lt_nextId_of_state? ((stands.exact id state).mpr inside)

theorem isLive (stands : Stands network heap) {id : StateId} (member : id ∈ heap.ids) :
    network.isLive id = true := by
  obtain ⟨state, inside⟩ := Heap.mem_ids.mp member
  exact network.isLive_iff.mpr ⟨state, (stands.exact id state).mpr inside⟩

theorem grown {before after : Construction} {more : Heap} {loops optionals : List Check}
    (stands : Stands before.network heap) (grown : Grown before after more loops optionals) :
    Stands after.network (heap ++ more) where
  exact id state := by
    rw [List.mem_append]
    by_cases old : id < before.network.nextId
    · have absent : (id, state) ∉ more := fun member =>
        absurd (grown.above id (Heap.mem_ids_of_mem member)) (Nat.not_le_of_lt old)
      rw [grown.old id old, stands.exact id state]
      simp [absent]
    · have absent : (id, state) ∉ heap := fun member => old (stands.below (Heap.mem_ids_of_mem member))
      rw [grown.new id state (Nat.le_of_not_lt old)]
      simp [absent]
  unique := by
    rw [Heap.ids_append, List.nodup_append]
    refine ⟨stands.unique, grown.unique, fun id member other later same => ?_⟩
    exact absurd (grown.above other later) (Nat.not_le_of_lt (same ▸ stands.below member))
  decides number id := by
    rw [Heap.decides_append]
    by_cases old : number < before.network.decisions.size
    · have absent : ¬more.Decides id number := fun ⟨state, member, decided⟩ =>
        absurd (grown.numbered id state number member decided) (Nat.not_le_of_lt old)
      rw [grown.oldDecisions number old, stands.decides number id]
      simp [absent]
    · have absent : ¬heap.Decides id number := fun decides => by
        have listed := (stands.decides number id).mpr decides
        exact old (Array.getElem?_eq_some_iff.mp listed).1
      rw [grown.newDecisions number id (Nat.le_of_not_lt old)]
      exact ⟨Or.inr, fun either => either.resolve_left absent⟩

theorem modifyState (stands : Stands network heap) (id : StateId) (change : State → State)
    (keeps : ∀ state, (change state).decision = state.decision) :
    Stands (network.modifyState id change) (heap.modify id change) where
  exact other found := by
    rw [Network.state?_modifyState, Heap.mem_modify]
    by_cases same : other = id
    · subst same
      simp only [↓reduceIte, Option.map_eq_some_iff, ne_eq, not_true_eq_false, false_and, true_and, false_or]
      simp only [stands.exact, eq_comm]
    · simp [same, stands.exact other found]
  unique := by simpa using stands.unique
  decides number other := by
    have same : (network.modifyState id change).decisions = network.decisions := rfl
    rw [same, stands.decides number other]
    simp only [Heap.Decides, Heap.mem_modify]
    constructor
    · rintro ⟨state, inside, decided⟩
      by_cases same : other = id
      · exact ⟨change state, Or.inr ⟨same, state, inside, rfl⟩, (keeps state).symm ▸ decided⟩
      · exact ⟨state, Or.inl ⟨same, inside⟩, decided⟩
    · rintro ⟨state, ⟨_, inside⟩ | ⟨_, old, inside, rfl⟩, decided⟩
      · exact ⟨state, inside, decided⟩
      · exact ⟨old, inside, keeps old ▸ decided⟩

theorem modifyAt (ahead : Heap) {behind : Heap} {id : StateId} {state : State}
    (stands : Stands network (ahead ++ (id, state) :: behind)) (change : State → State)
    (keeps : ∀ state, (change state).decision = state.decision) :
    Stands (network.modifyState id change) (ahead ++ (id, change state) :: behind) := by
  have unique := stands.unique
  simp only [Heap.ids_append, Heap.ids_cons] at unique
  have notAhead : id ∉ ahead.ids := by grind
  have notBehind : id ∉ behind.ids := by grind
  simpa [Heap.modify_of_notMem notAhead, Heap.modify_of_notMem notBehind] using
    stands.modifyState id change keeps

theorem addState (stands : Stands network heap) (state : State) (undecided : state.decision = none) :
    Stands (network.addState state) (heap ++ [(network.nextId, state)]) where
  exact id found := by
    simp only [Network.state?_addState, List.mem_append, List.mem_singleton, Prod.mk.injEq]
    by_cases same : id = network.nextId
    · subst same
      have absent : (network.nextId, found) ∉ heap := fun member =>
        absurd (stands.below (Heap.mem_ids_of_mem member)) (Nat.lt_irrefl _)
      simp [absent, eq_comm]
    · simp [same, stands.exact id found]
  unique := by
    simp only [Heap.ids_append, Heap.ids_cons, Heap.ids_nil, List.nodup_append, List.mem_singleton]
    refine ⟨stands.unique, by simp, fun id member other same equal => ?_⟩
    exact absurd (stands.below member) (by rw [equal, same]; exact Nat.lt_irrefl _)
  decides number id := by
    have same : (network.addState state).decisions = network.decisions := rfl
    rw [same, stands.decides number id, Heap.decides_append]
    simp [Heap.Decides, undecided]

theorem pushDecision (stands : Stands network heap) {id : StateId} {state : State}
    (member : (id, state) ∈ heap) (undecided : state.decision = none) :
    Stands (network.pushDecision id)
      (heap.modify id fun state => { state with decision := some network.decisions.size }) where
  exact other found := by
    rw [Network.state?_pushDecision, Heap.mem_modify]
    by_cases same : other = id
    · subst same
      simp only [↓reduceIte, Option.map_eq_some_iff, ne_eq, not_true_eq_false, false_and, true_and, false_or]
      simp only [stands.exact, eq_comm]
    · simp [same, stands.exact other found]
  unique := by simpa using stands.unique
  decides number other := by
    have unused : ∀ found, (other, found) ∈ heap → found.decision ≠ some network.decisions.size := by
      intro found inside decided
      have listed := (stands.decides _ other).mpr ⟨found, inside, decided⟩
      simp at listed
    rw [Network.decisions_pushDecision, Array.getElem?_push, Heap.Decides,
      Heap.decided_modify stands.unique member undecided unused]
    split
    · exact Option.some_inj
    · exact stands.decides number other

end Stands

/-- The states that belong to a state of this kind. -/
def StateKind.references : StateKind → List StateId
  | .ruleStart stop _ => [stop]
  | .blockStart _ exit loopBack => exit.toList ++ loopBack.toList
  | .blockEnd start => start.toList
  | .starLoopEntry loopBack | .loopEnd loopBack => loopBack.toList
  | .basic | .ruleStop | .starLoopBack | .plusLoopBack | .tokensStart => []

/-- A state of the rule that leads only to the states listed, apart from its calls, which lead to the starts
of the rules called and come back to the states listed. -/
structure State.Confined (starts : Array StateId) (rule : Option Nat) (ids : List StateId) (state : State) :
    Prop where
  rule : state.rule = rule
  transitions : ∀ transition ∈ state.transitions, ∃ label next,
    transition = Label.edge starts label next ∧
      (∀ index, label.callee? = some index → index < starts.size) ∧ next ∈ ids
  references : ∀ id ∈ state.kind.references, id ∈ ids

theorem State.Confined.silent {starts : Array StateId} {rule : Option Nat} {ids targets : List StateId}
    {state : State} (same : state.rule = rule) (transitions : state.transitions = targets.map .silent)
    (inside : ∀ target ∈ targets, target ∈ ids) (references : ∀ id ∈ state.kind.references, id ∈ ids) :
    state.Confined starts rule ids where
  rule := same
  transitions transition member := by
    rw [transitions, List.mem_map] at member
    obtain ⟨target, listed, rfl⟩ := member
    exact ⟨.epsilon, target, rfl, by simp [Label.callee?], inside target listed⟩
  references := references

theorem Trail.enter_mem {trail : Trail} {next id : StateId} {ids : List StateId}
    (inside : ∀ id ∈ trail.ids, id ∈ ids) (after : next ∈ ids) (found : trail.enter (some next) = some id) :
    id ∈ ids := by
  simp only [Trail.enter, Option.or_eq_some_iff, Option.some.injEq] at found
  rcases found with first | ⟨_, rfl⟩
  · exact inside id (Trail.first?_mem first)
  · exact after

theorem forkTargets_mem {greedy : Bool} {inside outside target : StateId} :
    target ∈ forkTargets greedy inside outside ↔ target = inside ∨ target = outside := by
  cases greedy <;> simp [forkTargets, or_comm]

theorem Frame.confined {starts : Array StateId} {rule : Option Nat} {frame : Frame} {start exit : StateId}
    {entries ids : List StateId} {next : Option StateId} (around : ∀ id ∈ start :: exit :: frame.loopIds, id ∈ ids)
    (listed : ∀ entry ∈ entries, entry ∈ ids) (after : ∀ id, next = some id → id ∈ ids) :
    ∀ entry ∈ frame.states rule start exit entries next, entry.2.Confined starts rule ids := by
  simp only [List.mem_cons, forall_eq_or_imp] at around
  obtain ⟨atStart, atExit, inLoop⟩ := around
  intro entry member
  simp only [Frame.states, List.mem_cons] at member
  rcases member with rfl | rfl | inner
  · refine .silent rfl rfl ?_ ?_
    · intro target found
      cases frame with
      | optional decision greedy => cases greedy <;> simp [Frame.startTargets] at found <;> grind
      | _ => exact listed target found
    · intro id found
      cases frame <;> simp [Frame.startState, StateKind.references, Frame.blockLoopBack] at found <;>
        grind [Frame.loopIds]
  · refine .silent rfl rfl ?_ ?_
    · intro target found
      cases frame <;> simp_all [Frame.exitTargets, Frame.loopIds]
    · intro id found
      simp_all [Frame.exitState, StateKind.references]
  · cases frame with
    | plain | optional => simp [Frame.loopStates] at inner
    | star decision greedy source loopBack loopEnd entryDecision =>
        simp only [Frame.loopIds, List.mem_cons, List.not_mem_nil, or_false, forall_eq_or_imp, forall_eq] at inLoop
        obtain ⟨atEntry, atEnd, atBack⟩ := inLoop
        simp only [Frame.loopStates, List.mem_cons, List.not_mem_nil, or_false] at inner
        rcases inner with rfl | rfl | rfl
        · refine .silent rfl rfl (fun target found => ?_) (by simp [StateKind.references, atBack])
          rcases forkTargets_mem.mp found with rfl | rfl
          · exact atStart
          · exact atEnd
        · refine .silent rfl rfl (fun target found => ?_) (by simp [StateKind.references, atBack])
          exact after target (Option.mem_toList.mp found)
        · refine .silent rfl (List.map_singleton).symm ?_ (by simp [StateKind.references])
          simpa using atEntry
    | plus decision greedy loopBack loopEnd loopDecision =>
        simp only [Frame.loopIds, List.mem_cons, List.not_mem_nil, or_false, forall_eq_or_imp, forall_eq] at inLoop
        obtain ⟨atBack, atEnd⟩ := inLoop
        simp only [Frame.loopStates, List.mem_cons, List.not_mem_nil, or_false] at inner
        rcases inner with rfl | rfl
        · refine .silent rfl rfl (fun target found => ?_) (by simp [StateKind.references])
          rcases forkTargets_mem.mp found with rfl | rfl
          · exact atStart
          · exact atEnd
        · refine .silent rfl rfl (fun target found => ?_) (by simp [StateKind.references, atBack])
          exact after target (Option.mem_toList.mp found)

mutual

/-- A trail leads only to its own states and to where it goes on. -/
theorem Trail.confined {starts : Array StateId} {rule : Option Nat} {ids : List StateId} : ∀ (trail : Trail)
    {next : StateId}, trail.CallsBelow starts.size → (∀ id ∈ trail.ids, id ∈ ids) → next ∈ ids →
    ∀ entry ∈ trail.layout starts rule (some next), entry.2.Confined starts rule ids
  | .done, _, _, _, _, _, member => by simp [Trail.layout] at member
  | .step source label rest, next, calls, inside, after, entry, member => by
      simp only [Trail.CallsBelow, Trail.labels, List.mem_cons, forall_eq_or_imp] at calls
      simp only [Trail.ids, List.mem_cons, forall_eq_or_imp] at inside
      rcases List.mem_cons.mp member with rfl | later
      · refine ⟨rfl, fun transition listed => ?_, by simp [StateKind.references]⟩
        simp only [List.mem_map, Option.mem_toList] at listed
        obtain ⟨target, found, rfl⟩ := listed
        exact ⟨label, target, rfl, calls.1, Trail.enter_mem inside.2 after found⟩
      · exact rest.confined calls.2 inside.2 after entry later
  | .gap source rest, next, calls, inside, after, entry, member => by
      simp only [Trail.ids, List.mem_cons, forall_eq_or_imp] at inside
      rcases List.mem_cons.mp member with rfl | later
      · exact ⟨rfl, by simp, by simp [StateKind.references]⟩
      · exact rest.confined calls inside.2 after entry later
  | .block frame start exit ways rest, next, calls, inside, after, entry, member => by
      simp only [Trail.CallsBelow, Trail.labels, List.mem_append, or_imp, forall_and] at calls
      have around : ∀ id ∈ start :: exit :: frame.loopIds, id ∈ ids := fun id listed =>
        inside id (List.mem_append_left _ listed)
      have within : ∀ id ∈ ways.ids, id ∈ ids := fun id listed => inside id (by simp [Trail.ids, listed])
      have behind : ∀ id ∈ rest.ids, id ∈ ids := fun id listed => inside id (by simp [Trail.ids, listed])
      have atExit : exit ∈ ids := around exit (by simp)
      simp only [Trail.layout, List.mem_append] at member
      rcases member with framed | among | later
      · refine Frame.confined around (fun target listed => ?_) (fun id found => ?_) entry framed
        · rcases ways.entries_mem listed with inner | rfl
          · exact within target inner
          · exact atExit
        · exact Trail.enter_mem behind after found
      · exact ways.confined calls.1 within atExit entry among
      · exact rest.confined calls.2 behind after entry later

theorem Ways.confined {starts : Array StateId} {rule : Option Nat} {ids : List StateId} : ∀ (ways : Ways)
    {exit : StateId}, (∀ label ∈ ways.labels, ∀ index, label.callee? = some index → index < starts.size) →
    (∀ id ∈ ways.ids, id ∈ ids) → exit ∈ ids →
    ∀ entry ∈ ways.layout starts rule exit, entry.2.Confined starts rule ids
  | .none, _, _, _, _, _, member => by simp [Ways.layout] at member
  | .more way rest, exit, calls, inside, after, entry, member => by
      simp only [Ways.labels, List.mem_append, or_imp, forall_and] at calls
      simp only [Ways.layout, List.mem_append] at member
      rcases member with first | later
      · exact way.confined calls.1 (fun id listed => inside id (by simp [Ways.ids, listed])) after entry first
      · exact rest.confined calls.2 (fun id listed => inside id (by simp [Ways.ids, listed])) after entry later

end

/-- The part of a network for a rule. -/
structure RulePart where
  start : StateId
  stop : StateId
  leftRecursive : Bool
  body : Trail := .done
  /-- The transitions that leave the end of the rule. -/
  exits : List Transition := []

namespace RulePart

/-- The states of the rule with number `index`. -/
def heap (starts : Array StateId) (part : RulePart) (index : Nat) : Heap :=
  (part.start, { rule := some index, kind := .ruleStart part.stop part.leftRecursive,
                 transitions := part.body.first?.toList.map .silent }) ::
    (part.stop, { rule := some index, kind := .ruleStop, transitions := part.exits }) ::
    part.body.layout starts (some index) (some part.stop)

/-- The states of the rules from number `index` on. -/
def heaps (starts : Array StateId) : Nat → List RulePart → Heap
  | _, [] => []
  | index, part :: rest => part.heap starts index ++ heaps starts (index + 1) rest

/-- The checks for the blocks of a kind in the rules from number `index` on. -/
def checks (kind : Frame → Bool) : Nat → List RulePart → List Check
  | _, [] => []
  | index, part :: rest => part.body.checks kind index ++ checks kind (index + 1) rest

/-- The number of states of the rules that lead nowhere. -/
def gaps : List RulePart → Nat
  | [] => 0
  | part :: rest => part.body.gaps + gaps rest

theorem gaps_append : ∀ (ahead behind : List RulePart), gaps (ahead ++ behind) = gaps ahead + gaps behind
  | [], behind => (Nat.zero_add _).symm
  | part :: ahead, behind => by
      rw [List.cons_append, gaps, gaps, gaps_append ahead behind, Nat.add_assoc]

theorem gaps_eq_zero : ∀ {parts : List RulePart}, gaps parts = 0 ↔ ∀ part ∈ parts, part.body.gaps = 0
  | [] => by simp [gaps]
  | part :: parts => by rw [gaps, Nat.add_eq_zero_iff, gaps_eq_zero, List.forall_mem_cons]

theorem heaps_append (starts : Array StateId) (ahead behind : List RulePart) (index : Nat) :
    heaps starts index (ahead ++ behind) =
      heaps starts index ahead ++ heaps starts (index + ahead.length) behind := by
  induction ahead generalizing index with
  | nil => rfl
  | cons part ahead ih => simp [heaps, ih, Nat.add_comm, Nat.add_left_comm]

theorem checks_append (kind : Frame → Bool) (ahead behind : List RulePart) (index : Nat) :
    checks kind index (ahead ++ behind) =
      checks kind index ahead ++ checks kind (index + ahead.length) behind := by
  induction ahead generalizing index with
  | nil => rfl
  | cons part ahead ih => simp [checks, ih, Nat.add_comm, Nat.add_left_comm]

theorem mem_heaps {starts : Array StateId} {parts : List RulePart} {first : Nat} {entry : StateId × State} :
    entry ∈ heaps starts first parts ↔
      ∃ (index : Nat) (part : RulePart), parts[index]? = some part ∧ entry ∈ part.heap starts (first + index) := by
  induction parts generalizing first with
  | nil => simp [heaps]
  | cons part parts ih =>
      rw [heaps, List.mem_append, ih]
      constructor
      · rintro (here | ⟨index, other, found, inside⟩)
        · exact ⟨0, part, rfl, here⟩
        · exact ⟨index + 1, other, found, by rwa [Nat.add_assoc, Nat.add_comm 1] at inside⟩
      · rintro ⟨index, other, found, inside⟩
        cases index with
        | zero =>
            cases found
            exact Or.inl inside
        | succ index => exact Or.inr ⟨index, other, found, by rwa [Nat.add_assoc, Nat.add_comm 1]⟩

theorem mem_checks {kind : Frame → Bool} {parts : List RulePart} {first : Nat} {check : Check} :
    check ∈ checks kind first parts ↔ ∃ (index : Nat) (part : RulePart), parts[index]? = some part ∧
      check ∈ part.body.checks kind (first + index) := by
  induction parts generalizing first with
  | nil => simp [checks]
  | cons part parts ih =>
      rw [checks, List.mem_append, ih]
      constructor
      · rintro (here | ⟨index, other, found, inside⟩)
        · exact ⟨0, part, rfl, here⟩
        · exact ⟨index + 1, other, found, by rwa [Nat.add_assoc, Nat.add_comm 1] at inside⟩
      · rintro ⟨index, other, found, inside⟩
        cases index with
        | zero =>
            cases found
            exact Or.inl inside
        | succ index => exact Or.inr ⟨index, other, found, by rwa [Nat.add_assoc, Nat.add_comm 1]⟩

theorem heaps_split (starts : Array StateId) (ahead behind : List RulePart) (part : RulePart) (index : Nat) :
    (heaps starts index (ahead ++ part :: behind)).Perm
      (part.heap starts (index + ahead.length) ++
        (heaps starts index ahead ++ heaps starts (index + ahead.length + 1) behind)) := by
  rw [heaps_append, heaps]
  exact List.perm_append_comm_assoc _ _ _

end RulePart

end GrammarNetwork
