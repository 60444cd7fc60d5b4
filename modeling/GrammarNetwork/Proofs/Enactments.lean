import GrammarNetwork.Construction.Complete
import GrammarNetwork.Proofs.Leaves

/-! Enactments: the transitions that run actions. Putting pieces of a network together adds none and takes none out,
since the states that are taken out run nothing. -/

namespace GrammarNetwork

def Label.isAction : Label → Bool
  | .action _ _ _ => true
  | _ => false

theorem Label.not_isAction_of_reads {label : Label} (reads : label.reads = true) : label.isAction = false := by
  cases label <;> first | rfl | cases reads

/-- A transition that runs an action: the state that it leaves, the rule of this state, and the label. -/
structure Enactment where
  source : StateId
  rule : Option Nat
  label : Label

def State.enactments (source : StateId) (state : State) : List Enactment :=
  (state.transitions.filter fun transition => transition.label.isAction).map fun transition =>
    ⟨source, state.rule, transition.label⟩

theorem State.mem_enactments {source : StateId} {state : State} {run : Enactment} :
    run ∈ state.enactments source ↔ run.source = source ∧ run.rule = state.rule ∧ run.label.isAction = true ∧
      ∃ transition ∈ state.transitions, transition.label = run.label := by
  obtain ⟨other, rule, label⟩ := run
  simp only [enactments, List.mem_map, List.mem_filter, Enactment.mk.injEq]
  grind

namespace Network

/-- The actions that run along the transitions of a state. -/
def enactmentsAt (network : Network) (id : StateId) : List Enactment :=
  ((network.state? id).map (State.enactments id)).getD []

/-- The actions that run along transitions, in the order of the states. -/
def enactments (network : Network) : List Enactment :=
  (List.range network.nextId).flatMap network.enactmentsAt

/-- The state is there, or has been, and nothing runs along its transitions. -/
structure Inert (network : Network) (id : StateId) : Prop where
  old : id < network.nextId
  none : network.enactmentsAt id = []

variable {network : Network} {id : StateId}

theorem enactmentsAt_of_state? {state : State} (found : network.state? id = some state) :
    network.enactmentsAt id = state.enactments id := by
  simp [enactmentsAt, found]

theorem enactmentsAt_of_nextId_le (beyond : network.nextId ≤ id) : network.enactmentsAt id = [] := by
  simp [enactmentsAt, state?_of_nextId_le network beyond]

theorem mem_enactments {run : Enactment} :
    run ∈ network.enactments ↔
      ∃ state, network.state? run.source = some state ∧ run ∈ state.enactments run.source := by
  simp only [enactments, List.mem_flatMap, List.mem_range]
  constructor
  · rintro ⟨id, _, member⟩
    cases found : network.state? id with
    | none => simp [enactmentsAt, found] at member
    | some state =>
        rw [enactmentsAt_of_state? found] at member
        obtain rfl := (State.mem_enactments.mp member).1
        exact ⟨state, found, member⟩
  · rintro ⟨state, found, member⟩
    exact ⟨run.source, network.lt_nextId_of_state? found, by rwa [enactmentsAt_of_state? found]⟩

theorem enactmentsAt_addState {state : State} (plain : state.transitions = []) :
    (network.addState state).enactmentsAt id = network.enactmentsAt id := by
  rw [enactmentsAt, state?_addState]
  split
  · rename_i same
    rw [enactmentsAt_of_nextId_le (Nat.le_of_eq same.symm)]
    simp [State.enactments, plain]
  · rfl

theorem enactmentsAt_modifyState {changed : StateId} {change : State → State}
    (keeps : ∀ state : State, (change state).enactments changed = state.enactments changed) :
    (network.modifyState changed change).enactmentsAt id = network.enactmentsAt id := by
  rw [enactmentsAt, state?_modifyState]
  split
  · rename_i same
    subst same
    cases found : network.state? id <;> simp [enactmentsAt, found, keeps]
  · rfl

theorem enactmentsAt_removeState {removed : StateId} (none : network.enactmentsAt removed = []) :
    (network.removeState removed).enactmentsAt id = network.enactmentsAt id := by
  rw [enactmentsAt, state?_removeState]
  split
  · rename_i same
    simpa [same] using none.symm
  · rfl

/-- If a state is taken out, nothing runs along its transitions. -/
theorem stripTail_cases (network : Network) (start : StateId) :
    network.stripTail start = network ∨
      ∃ behind exit, network.enactmentsAt behind = [] ∧
        network.stripTail start = (network.redirectFirst start exit).removeState behind := by
  unfold stripTail
  cases network.onlyTransition? start with
  | none => exact Or.inl rfl
  | some transition =>
      cases only : network.onlyTransition? transition.next with
      | none => simp only [only, true_or]
      | some tail =>
          obtain ⟨state, found, _, alone⟩ := onlyTransition?_eq_some.mp only
          simp only [only]
          obtain ⟨target, label⟩ := tail
          cases label with
          | action rule index contextDependent => exact Or.inl rfl
          | _ =>
              have inert : network.enactmentsAt transition.next = [] := by
                simp [enactmentsAt_of_state? found, State.enactments, alone, Label.isAction]
              exact (ite_eq_or_eq _ _ _).symm.imp_right fun taken => ⟨_, _, inert, taken⟩

/-- Where actions run is the same, and there may be more states. -/
structure Preserves (before after : Network) : Prop where
  grows : before.nextId ≤ after.nextId
  actions : after.lexerActions = before.lexerActions
  runs : ∀ id, after.enactmentsAt id = before.enactmentsAt id

namespace Preserves

variable {before middle after : Network}

theorem refl (network : Network) : network.Preserves network :=
  ⟨Nat.le_refl _, rfl, fun _ => rfl⟩

theorem trans (first : before.Preserves middle) (second : middle.Preserves after) : before.Preserves after :=
  ⟨Nat.le_trans first.grows second.grows, second.actions.trans first.actions, fun id =>
    (second.runs id).trans (first.runs id)⟩

theorem inert (preserves : before.Preserves after) (still : before.Inert id) : after.Inert id :=
  ⟨Nat.lt_of_lt_of_le still.old preserves.grows, (preserves.runs id).trans still.none⟩

/-- A state that is new runs nothing. -/
theorem inert_new (preserves : before.Preserves after) (new : before.nextId ≤ id) (old : id < after.nextId) :
    after.Inert id :=
  ⟨old, (preserves.runs id).trans (enactmentsAt_of_nextId_le new)⟩

theorem enactments_eq (preserves : before.Preserves after) : after.enactments = before.enactments := by
  obtain ⟨more, added⟩ := Nat.exists_eq_add_of_le preserves.grows
  rw [enactments, enactments, added, List.range_add, List.flatMap_append, funext preserves.runs]
  have new : ((List.range more).map (before.nextId + ·)).flatMap before.enactmentsAt = [] := by
    simp only [List.flatMap_eq_nil_iff, List.mem_map]
    rintro _ ⟨offset, _, rfl⟩
    exact enactmentsAt_of_nextId_le (Nat.le_add_right _ _)
  rw [new, List.append_nil]

end Preserves

/-- Everything but the states and the table of actions may change. -/
theorem preserves_of_states {before after : Network} (states : after.states = before.states)
    (actions : after.lexerActions = before.lexerActions) : before.Preserves after := by
  have same : after.state? = before.state? := funext fun id => by simp only [state?, states]
  exact ⟨by simp [nextId, states], actions, fun id => by simp only [enactmentsAt, same]⟩

theorem preserves_addState {state : State} (plain : state.transitions = []) :
    network.Preserves (network.addState state) :=
  ⟨by simp, rfl, fun _ => enactmentsAt_addState plain⟩

theorem preserves_modifyState {changed : StateId} {change : State → State}
    (keeps : ∀ state : State, (change state).enactments changed = state.enactments changed) :
    network.Preserves (network.modifyState changed change) :=
  ⟨by simp, rfl, fun _ => enactmentsAt_modifyState keeps⟩

theorem preserves_removeState {removed : StateId} (none : network.enactmentsAt removed = []) :
    network.Preserves (network.removeState removed) :=
  ⟨by simp, rfl, fun _ => enactmentsAt_removeState none⟩

theorem preserves_addTransition {source : StateId} {transition : Transition}
    (plain : transition.label.isAction = false) : network.Preserves (network.addTransition source transition) :=
  preserves_modifyState fun state => by simp [State.enactments, plain]

theorem preserves_defineDecision (decided : StateId) : network.Preserves (network.defineDecision decided) := by
  unfold defineDecision
  split
  · exact ⟨by simp [pushDecision, nextId, modifyState], rfl, fun _ => enactmentsAt_modifyState fun _ => rfl⟩
  · exact .refl network

theorem preserves_redirectFirst (changed target : StateId) :
    network.Preserves (network.redirectFirst changed target) := by
  refine preserves_modifyState fun state => ?_
  obtain ⟨rule, kind, transitions, decision, nonGreedy⟩ := state
  cases transitions with
  | nil => rfl
  | cons first rest =>
      obtain ⟨next, label⟩ := first
      cases label <;> rfl

theorem preserves_stripTail (start : StateId) : network.Preserves (network.stripTail start) := by
  obtain same | ⟨behind, exit, none, same⟩ := stripTail_cases network start
  · rw [same]
    exact .refl network
  · rw [same]
    refine (preserves_redirectFirst start exit).trans (preserves_removeState ?_)
    rw [(preserves_redirectFirst start exit).runs, none]

theorem preserves_stripTailsFrom (network : Network) (rule : Option Nat) (remaining : StateSet)
    (stack : List StateId) : network.Preserves (network.stripTailsFrom rule remaining stack) := by
  fun_induction stripTailsFrom network rule remaining stack with
  | case1 => exact .refl _
  | case2 network remaining stack id rest found stripped targets ih => exact (preserves_stripTail id).trans ih

theorem preserves_stripTails (start : StateId) : network.Preserves (network.stripTails start) := by
  unfold stripTails
  split
  · exact preserves_stripTailsFrom network _ _ _
  · exact .refl network

/-- The network with two new states and one transition between them. -/
def addAtom (network : Network) (rule : Option Nat) (label : Label) : Network :=
  let state : State := { rule, kind := .basic }
  ((network.addState state).addState state).addTransition network.nextId ⟨network.nextId + 1, label⟩

variable {rule : Option Nat} {label : Label}

@[simp] theorem nextId_addAtom : (network.addAtom rule label).nextId = network.nextId + 1 + 1 := by
  simp [addAtom, addTransition]

theorem enactmentsAt_addAtom_of_ne (other : id ≠ network.nextId) :
    (network.addAtom rule label).enactmentsAt id = network.enactmentsAt id := by
  have preserves : network.Preserves ((network.addState { rule, kind := .basic }).addState { rule, kind := .basic }) :=
    (preserves_addState rfl).trans (preserves_addState rfl)
  rw [← preserves.runs id]
  simp [addAtom, enactmentsAt, addTransition, state?_modifyState, other]

theorem Inert.addAtom (inert : network.Inert id) : (network.addAtom rule label).Inert id := by
  refine ⟨?_, (enactmentsAt_addAtom_of_ne (Nat.ne_of_lt inert.old)).trans inert.none⟩
  rw [nextId_addAtom]
  exact Nat.lt_add_right 1 (Nat.lt_add_right 1 inert.old)

theorem inert_addAtom : (network.addAtom rule label).Inert (network.nextId + 1) :=
  ⟨by simp, (enactmentsAt_addAtom_of_ne (Nat.succ_ne_self _)).trans (enactmentsAt_of_nextId_le (Nat.le_succ _))⟩

/-- The new transition is behind all others. -/
theorem enactments_addAtom (runs : label.isAction = true) :
    (network.addAtom rule label).enactments = network.enactments ++ [⟨network.nextId, rule, label⟩] := by
  have here : (network.addAtom rule label).enactmentsAt network.nextId = [⟨network.nextId, rule, label⟩] := by
    simp [addAtom, enactmentsAt, addTransition, state?_modifyState, state?_addState, State.enactments, runs]
  have old : (List.range network.nextId).flatMap (network.addAtom rule label).enactmentsAt = network.enactments :=
    List.flatMap_congr fun id small => enactmentsAt_addAtom_of_ne (Nat.ne_of_lt (List.mem_range.mp small))
  rw [enactments, nextId_addAtom, List.range_succ, List.range_succ]
  simp [old, here, inert_addAtom.none]

end Network

end GrammarNetwork
