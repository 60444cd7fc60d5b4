import Mathlib.Data.List.Forall2
import GrammarNetwork.Proofs.Enactments
import GrammarNetwork.Proofs.Errands

/-! Ledgers: the transitions of a construction that run actions, each with what it is for, and the table that has every
action once. Putting pieces together runs nothing, so that it leaves the ledger as it is. -/

namespace GrammarNetwork

/-- Looks an action up in the table, and appends it if it is not there. -/
def internAction (actions : Array LexerAction) (action : LexerAction) : Nat × Array LexerAction :=
  match actions.idxOf? action with
  | some index => (index, actions)
  | none => (actions.size, actions.push action)

section Interning

variable {actions : Array LexerAction} {action : LexerAction}

theorem getElem?_internAction :
    (internAction actions action).2[(internAction actions action).1]? = some action := by
  unfold internAction
  obtain ⟨listed⟩ := actions
  rw [List.idxOf?_toArray]
  cases found : listed.idxOf? action with
  | none => exact Array.getElem?_push_size
  | some index =>
      obtain ⟨bound, same, _⟩ := List.idxOf?_eq_some_iff.mp found
      exact Array.getElem?_eq_some_iff.mpr ⟨bound, same⟩

theorem getElem?_internAction_of_some {index : Nat} {other : LexerAction} (found : actions[index]? = some other) :
    (internAction actions action).2[index]? = some other := by
  unfold internAction
  split
  · exact found
  · have bound := (Array.getElem?_eq_some_iff.mp found).1
    rw [Array.getElem?_push, if_neg (Nat.ne_of_lt bound), found]

theorem nodup_internAction (once : actions.toList.Nodup) : (internAction actions action).2.toList.Nodup := by
  unfold internAction
  split
  · exact once
  · rename_i absent
    rw [Array.idxOf?_eq_none_iff] at absent
    rw [Array.toList_push, List.nodup_append]
    refine ⟨once, List.nodup_singleton _, fun other listed new same => ?_⟩
    rintro rfl
    exact absent (List.mem_singleton.mp same ▸ Array.mem_toList_iff.mp listed)

theorem mem_internAction {other : LexerAction} (listed : other ∈ (internAction actions action).2) :
    other ∈ actions ∨ other = action := by
  unfold internAction at listed
  split at listed
  · exact Or.inl listed
  · exact Array.mem_push.mp listed

end Interning

namespace Item

/-- The construction with this state as the one that was made for the item. -/
def mark (item : Item) (id : StateId) (construction : Construction) : Construction :=
  match item with
  | .element site _ => { construction with elementStates := (site, id) :: construction.elementStates }
  | .command site _ => { construction with commandStates := (site, id) :: construction.commandStates }

@[simp] theorem network_mark (item : Item) (id : StateId) (construction : Construction) :
    (item.mark id construction).network = construction.network := by
  cases item <;> rfl

@[simp] theorem rule_mark (item : Item) (id : StateId) (construction : Construction) :
    (item.mark id construction).rule = construction.rule := by
  cases item <;> rfl

@[simp] theorem actions_mark (item : Item) (id : StateId) (construction : Construction) :
    (item.mark id construction).actions = construction.actions := by
  cases item <;> rfl

@[simp] theorem nextAction_mark (item : Item) (id : StateId) (construction : Construction) :
    (item.mark id construction).nextAction = construction.nextAction := by
  cases item <;> rfl

/-- The state was made for the item. -/
def MarkedAt (item : Item) (construction : Construction) (id : StateId) : Prop :=
  match item with
  | .element site _ => (site, id) ∈ construction.elementStates
  | .command site _ => (site, id) ∈ construction.commandStates

end Item

/-- The transition that runs an action leaves the state that was made for the item, with the rule of the item and the
index of its action. -/
structure Performs (actions : Array LexerAction) (construction : Construction) (run : Enactment)
    (deed : Deed) : Prop where
  marked : deed.1.MarkedAt construction run.source
  rule : run.rule = some deed.1.site.rule
  runs : ∃ index : Nat, run.label = .action deed.1.site.rule (some index) false ∧ actions[index]? = some deed.2

/-- The deeds that were done so far, with nothing else in the table and nothing there twice. -/
structure Ledger (construction : Construction) (deeds : List Deed) : Prop where
  runs : List.Forall₂ (Performs construction.actions construction) construction.network.enactments deeds
  once : construction.actions.toList.Nodup
  used : ∀ action ∈ construction.actions, action ∈ deeds.map Prod.snd

/-- All marks of states are still there. -/
structure Construction.KeepsMarks (before after : Construction) : Prop where
  elements : before.elementStates ⊆ after.elementStates
  commands : before.commandStates ⊆ after.commandStates

theorem Construction.KeepsMarks.refl (construction : Construction) : construction.KeepsMarks construction :=
  ⟨List.Subset.refl _, List.Subset.refl _⟩

theorem Construction.KeepsMarks.trans {before middle after : Construction} (first : before.KeepsMarks middle)
    (second : middle.KeepsMarks after) : before.KeepsMarks after :=
  ⟨List.Subset.trans first.elements second.elements, List.Subset.trans first.commands second.commands⟩

theorem Item.keepsMarks_mark (item : Item) (id : StateId) (construction : Construction) :
    construction.KeepsMarks (item.mark id construction) := by
  cases item with
  | element site element => exact ⟨List.subset_cons_self _ _, List.Subset.refl _⟩
  | command site command => exact ⟨List.Subset.refl _, List.subset_cons_self _ _⟩

theorem Item.MarkedAt.mono {item : Item} {before after : Construction} {id : StateId} (marked : item.MarkedAt before id)
    (marks : before.KeepsMarks after) : item.MarkedAt after id := by
  cases item with
  | element site element => exact marks.elements marked
  | command site command => exact marks.commands marked

theorem Performs.mono {actions more : Array LexerAction} {before after : Construction} {run : Enactment}
    {deed : Deed} (performs : Performs actions before run deed) (marks : before.KeepsMarks after)
    (grows : ∀ (index : Nat) (action : LexerAction), actions[index]? = some action → more[index]? = some action) :
    Performs more after run deed := by
  obtain ⟨marked, rule, index, label, found⟩ := performs
  exact ⟨marked.mono marks, rule, index, label, grows index _ found⟩

theorem Ledger.mono {before after : Construction} {done : List Deed} (ledger : Ledger before done)
    (marks : before.KeepsMarks after) (runs : after.network.enactments = before.network.enactments)
    (actions : after.actions = before.actions) : Ledger after done := by
  refine ⟨?_, actions ▸ ledger.once, actions ▸ ledger.used⟩
  rw [runs]
  exact ledger.runs.imp fun run deed performs => performs.mono marks fun index action found => actions ▸ found

/-- A step that runs nothing: it may add states, transitions without actions, and marks. -/
structure Construction.Idles (before after : Construction) : Prop extends before.KeepsMarks after where
  network : before.network.Preserves after.network
  rule : after.rule = before.rule
  actions : after.actions = before.actions
  nextAction : after.nextAction = before.nextAction

/-- A step that runs these errands. -/
structure Advances (before after : Construction) (tasks : List Task) : Prop where
  /-- States along which nothing runs stay as they are. -/
  inert : ∀ id, before.network.Inert id → after.network.Inert id
  table : after.network.lexerActions = before.network.lexerActions
  still : tasks = [] → after.actions = before.actions
  next : after.nextAction = before.nextAction + draws tasks
  ledger : ∀ done, Ledger before done → Ledger after (done ++ enact before.nextAction tasks)

theorem Construction.Idles.advances {before after : Construction} (idles : before.Idles after) :
    Advances before after [] where
  inert _ := idles.network.inert
  table := idles.network.actions
  still _ := idles.actions
  next := idles.nextAction
  ledger done ledger := by
    rw [enact, List.append_nil]
    exact ledger.mono idles.toKeepsMarks idles.network.enactments_eq idles.actions

theorem Advances.trans {before middle after : Construction} {tasks more : List Task}
    (first : Advances before middle tasks) (second : Advances middle after more) :
    Advances before after (tasks ++ more) where
  inert id still := second.inert id (first.inert id still)
  table := second.table.trans first.table
  still none := by
    obtain ⟨rfl, rfl⟩ := List.append_eq_nil_iff.mp none
    rw [second.still rfl, first.still rfl]
  next := by rw [second.next, first.next, draws_append, Nat.add_assoc]
  ledger done ledger := by
    have both := second.ledger _ (first.ledger done ledger)
    rwa [List.append_assoc, first.next, ← enact_append] at both

theorem Advances.after_idles {before middle after : Construction} {tasks : List Task}
    (advances : Advances middle after tasks) (idles : before.Idles middle) : Advances before after tasks :=
  idles.advances.trans advances

/-- The construction with a new transition that runs an action. -/
def Construction.perform (before : Construction) (rule : Nat) (action : LexerAction) : Construction :=
  { before with
    actions := (internAction before.actions action).2
    network := before.network.addAtom before.rule
      (.action rule (some (internAction before.actions action).1) false) }

/-- The new transition performs what the item comes to, as soon as its state is marked. -/
theorem Ledger.perform {before : Construction} {done : List Deed} (ledger : Ledger before done)
    {item : Item} (current : before.rule = some item.site.rule) (action : LexerAction) :
    Ledger (item.mark before.network.nextId (before.perform item.site.rule action)) (done ++ [(item, action)]) := by
  have marks : before.KeepsMarks (item.mark before.network.nextId (before.perform item.site.rule action)) := by
    refine .trans ?_ (item.keepsMarks_mark before.network.nextId (before.perform item.site.rule action))
    exact ⟨List.Subset.refl _, List.Subset.refl _⟩
  refine ⟨?_, ?_, fun other listed => ?_⟩
  · rw [Item.network_mark, Item.actions_mark, Construction.perform, Network.enactments_addAtom rfl]
    refine List.rel_append ?_ (.cons ⟨?_, current, _, rfl, getElem?_internAction⟩ .nil)
    · exact ledger.runs.imp fun run deed performs =>
        performs.mono marks fun index other found => getElem?_internAction_of_some found
    · cases item <;> exact List.mem_cons_self
  · rw [Item.actions_mark]
    exact nodup_internAction ledger.once
  · rw [Item.actions_mark] at listed
    rw [List.map_append, List.mem_append]
    exact (mem_internAction listed).imp (ledger.used other) (by simp)

namespace Build

variable {α β : Type}

/-- The step runs these errands while `rule` is being built. Nothing runs along the transitions of the states in
`known` before it, nor along those of the states in `ends` after it. -/
def Works (rule : Option Nat) (known : List StateId) (step : Build α) (tasks : List Task)
    (ends : α → List StateId) : Prop :=
  ∀ before : Construction, before.rule = rule → (∀ id ∈ known, before.network.Inert id) →
    Meets step before (fun value after => after.rule = rule ∧ Advances before after tasks ∧
      ∀ id ∈ ends value, after.network.Inert id) fun _ => True

/-- The step runs nothing. -/
abbrev Calm (rule : Option Nat) (known : List StateId) (step : Build α) (ends : α → List StateId) : Prop :=
  Works rule known step [] ends

section Rules

variable {rule : Option Nat} {known : List StateId}

theorem Works.bind {step : Build α} {next : α → Build β} {tasks more : List Task} {ends : α → List StateId}
    {later : β → List StateId} (first : Works rule known step tasks ends)
    (second : ∀ value, Works rule (ends value ++ known) (next value) more later) :
    Works rule known (step >>= next) (tasks ++ more) later := by
  intro before current inert
  rw [meets_bind]
  refine (first before current inert).weaken (fun value middle => ?_) fun _ => id
  rintro ⟨same, advances, ended⟩
  refine (second value middle same ?_).weaken (fun result after => ?_) fun _ => id
  · simp only [List.forall_mem_append]
    exact ⟨ended, fun id listed => advances.inert id (inert id listed)⟩
  · rintro ⟨again, follows, last⟩
    exact ⟨again, advances.trans follows, last⟩

theorem Calm.bind {step : Build α} {next : α → Build β} {more : List Task} {ends : α → List StateId}
    {later : β → List StateId} (first : Calm rule known step ends)
    (second : ∀ value, Works rule (ends value ++ known) (next value) more later) :
    Works rule known (step >>= next) more later :=
  Works.bind first second

theorem Works.bind_calm {step : Build α} {next : α → Build β} {tasks : List Task} {ends : α → List StateId}
    {later : β → List StateId} (first : Works rule known step tasks ends)
    (second : ∀ value, Calm rule (ends value ++ known) (next value) later) :
    Works rule known (step >>= next) tasks later := by
  rw [← List.append_nil tasks]
  exact first.bind second

theorem calm_of_idles {step : Build α} (idles : ∀ before : Construction, before.rule = rule →
    Meets step before (fun _ after => before.Idles after) fun _ => True) : Calm rule known step fun _ => [] := by
  intro before current _
  refine (idles before current).weaken (fun value after idle => ?_) fun _ => id
  exact ⟨idle.rule.trans current, idle.advances, by simp⟩

theorem calm_pure {value : α} {ends : α → List StateId} (listed : ends value ⊆ known) :
    Calm rule known (pure value) ends := by
  intro before current inert
  have idle : before.Idles before := ⟨⟨List.Subset.refl _, List.Subset.refl _⟩, .refl _, rfl, rfl, rfl⟩
  exact ⟨current, idle.advances, fun id member => inert id (listed member)⟩

theorem works_throw {failure : Failure} {tasks : List Task} {ends : α → List StateId} :
    Works rule known (throw failure) tasks ends :=
  fun _ _ _ => trivial

/-- The journal, the checks and the names of the commands run nothing. -/
theorem idles_of_preserves {before : Construction} {network : Network} {journal : Journal}
    {loopChecks optionalChecks : Array Check} {usedCommands : List String}
    (preserves : before.network.Preserves network) :
    before.Idles { before with network, journal, loopChecks, optionalChecks, usedCommands } :=
  ⟨⟨List.Subset.refl _, List.Subset.refl _⟩, preserves, rfl, rfl, rfl⟩

theorem calm_get : Calm rule known get fun _ => [] :=
  calm_of_idles fun _ _ => idles_of_preserves (.refl _)

theorem calm_network : Calm rule known network fun _ => [] :=
  calm_of_idles fun _ _ => idles_of_preserves (.refl _)

theorem calm_modify {change : Construction → Construction}
    (idles : ∀ before : Construction, before.Idles (change before)) : Calm rule known (modify change) fun _ => [] :=
  calm_of_idles fun before _ => idles before

theorem calm_modifyNetwork {change : Network → Network}
    (preserves : ∀ network : Network, network.Preserves (change network)) :
    Calm rule known (modifyNetwork change) fun _ => [] :=
  calm_modify fun before => idles_of_preserves (preserves before.network)

theorem calm_note {note : Note} : Calm rule known (Build.note note) fun _ => [] :=
  calm_modify fun _ => idles_of_preserves (.refl _)

theorem calm_report {plan : Plan} {problem : Problem} {position : Option Position} {arguments : List String} :
    Calm rule known (report plan problem position arguments) fun _ => [] :=
  calm_modify fun _ => idles_of_preserves (.refl _)

theorem works_fail {plan : Plan} {cause : Inconsistency} {tasks : List Task} {ends : α → List StateId} :
    Works rule known (fail plan cause : Build α) tasks ends :=
  fun _ _ _ => meets_fail.mpr trivial

theorem calm_currentRule {plan : Plan} : Calm rule known (currentRule plan) fun _ => [] := by
  refine calm_get.bind fun construction => ?_
  cases construction.rule with
  | none => exact works_fail
  | some rule => exact calm_pure (List.nil_subset _)

theorem calm_newStateIn {owner : Option Nat} {kind : StateKind} :
    Calm rule known (newStateIn owner kind) fun id => [id] := by
  intro before current _
  have preserves : before.network.Preserves (before.network.addState { rule := owner, kind }) :=
    Network.preserves_addState rfl
  refine ⟨current, (idles_of_preserves preserves).advances, ?_⟩
  simp only [List.mem_singleton, forall_eq]
  exact preserves.inert_new (Nat.le_refl _) (by simp)

theorem calm_newState {kind : StateKind} : Calm rule known (newState kind) fun id => [id] :=
  calm_get.bind fun _ => calm_newStateIn

theorem calm_guarded {test : Network → Bool} {change : Network → Network} {failure : Failure}
    (preserves : ∀ network : Network, network.Preserves (change network)) :
    Calm rule known (do if test (← network) then modifyNetwork change else throw failure) fun _ => [] := by
  refine calm_network.bind fun network => ?_
  split
  · exact calm_modifyNetwork preserves
  · exact works_throw

theorem calm_changeState {id : StateId} {change : State → State}
    (keeps : ∀ state : State, (change state).enactments id = state.enactments id) :
    Calm rule known (changeState id change) fun _ => [] :=
  calm_guarded fun _ => Network.preserves_modifyState keeps

theorem calm_addTransition {source : StateId} {transition : Transition} (plain : transition.label.isAction = false) :
    Calm rule known (addTransition source transition) fun _ => [] :=
  calm_guarded fun _ => Network.preserves_addTransition plain

theorem calm_epsilon {source target : StateId} : Calm rule known (epsilon source target) fun _ => [] :=
  calm_addTransition rfl

theorem calm_defineDecision {id : StateId} : Calm rule known (defineDecision id) fun _ => [] := by
  refine calm_network.bind fun network => ?_
  cases network.decisionNumber? id with
  | none => exact works_throw
  | some decision =>
      exact (calm_modifyNetwork fun _ => Network.preserves_defineDecision id).bind fun _ =>
        calm_note.bind fun _ => calm_pure (List.nil_subset _)

theorem calm_discard {step : Build α} {ends : α → List StateId} (calm : Calm rule known step ends) :
    Calm rule known (discard step) fun _ => [] := by
  intro before current inert
  rw [meets_discard]
  exact (calm before current inert).weaken (fun _ _ holds => ⟨holds.1, holds.2.1, by simp⟩) fun _ => id

theorem calm_forM {items : List α} {step : α → Build Unit}
    (calm : ∀ item ∈ items, Calm rule known (step item) fun _ => []) :
    Calm rule known (items.forM step) fun _ => [] := by
  induction items with
  | nil => exact calm_pure (List.nil_subset _)
  | cons first rest ih =>
      rw [List.forall_mem_cons] at calm
      exact calm.1.bind fun _ => ih calm.2

theorem calm_atom {label : Label} (plain : label.isAction = false) :
    Calm rule known (atom label) fun handle => [handle.right] := by
  refine calm_newState.bind fun left => calm_newState.bind fun right => ?_
  exact (calm_addTransition plain).bind fun _ => calm_pure (by simp)

/-- One piece and then others. -/
theorem Works.cons {first : Build Handle} {rest : Build (List Handle)} {tasks more : List Task}
    (front : Works rule known first tasks fun handle => [handle.right])
    (back : ∀ {known : List StateId}, Works rule known rest more fun handles => handles.map Handle.right) :
    Works rule known (do
      let handle ← first
      let handles ← rest
      return handle :: handles) (tasks ++ more) fun handles => handles.map Handle.right :=
  front.bind fun _ => back.bind_calm fun _ => calm_pure (by simp)

theorem right_mem_append {handles : List Handle} : ∀ piece ∈ handles, piece.right ∈ handles.map Handle.right ++ known :=
  fun _ member => List.mem_append_left _ (List.mem_map_of_mem member)

theorem calm_ruleStates {plan : Plan} {index : Nat} : Calm rule known (ruleStates plan index) fun _ => [] := by
  refine calm_network.bind fun network => ?_
  split
  · exact calm_pure (List.nil_subset _)
  · exact works_fail

end Rules

section Composition

variable {rule : Option Nat} {known : List StateId} {plan : Plan}

/-- The state that is taken out is the end of a piece, along which nothing runs. -/
theorem calm_join {piece next : Handle} (listed : piece.right ∈ known) :
    Calm rule known (join piece next) fun _ => [] := by
  intro before current inert
  simp only [join, meets_bind, meets_network]
  split
  · have redirected : before.network.Preserves (before.network.redirectFirst piece.left next.left) :=
      Network.preserves_redirectFirst _ _
    have removed := Network.preserves_removeState (redirected.inert (inert piece.right listed)).none
    exact ⟨current, (idles_of_preserves (redirected.trans removed)).advances, by simp⟩
  · exact calm_epsilon before current inert

theorem calm_sequence : ∀ {pieces : List Handle} {known : List StateId}, (∀ piece ∈ pieces, piece.right ∈ known) →
    Calm rule known (sequence plan pieces) fun handle => [handle.right]
  | [], _, _ => works_fail
  | [piece], _, listed => calm_pure (by simpa using listed)
  | piece :: next :: rest, _, listed => by
      rw [List.forall_mem_cons] at listed
      exact (calm_join listed.1).bind fun _ => (calm_sequence listed.2).bind fun tail => calm_pure (by simp)

theorem calm_setBlockExit {start exit : StateId} : Calm rule known (setBlockExit start exit) fun _ => [] :=
  calm_changeState fun _ => rfl

theorem calm_setBlockLoopBack {start loopBack : StateId} :
    Calm rule known (setBlockLoopBack start loopBack) fun _ => [] :=
  calm_changeState fun _ => rfl

theorem calm_setKind {id : StateId} {kind : StateKind} : Calm rule known (setKind id kind) fun _ => [] :=
  calm_changeState fun _ => rfl

theorem calm_setGreedy {id : StateId} {greedy : Bool} : Calm rule known (setGreedy id greedy) fun _ => [] :=
  calm_changeState fun _ => rfl

theorem calm_addAlternative {start exit : StateId} {alternative : Handle} :
    Calm rule known (addAlternative start exit alternative) fun _ => [] :=
  calm_epsilon.bind fun _ => calm_epsilon.bind fun _ =>
    calm_modifyNetwork fun _ => Network.preserves_stripTails alternative.left

theorem calm_blockFrom {start : StateId} {alternatives : List Handle} :
    Calm rule known (blockFrom start alternatives) fun handle => [handle.right] := by
  refine calm_newState.bind fun exit => calm_setBlockExit.bind fun _ => ?_
  exact (calm_forM fun _ _ => calm_addAlternative).bind fun _ => calm_pure (by simp)

theorem calm_blockCheck {block : Handle} : Calm rule known (blockCheck plan block) fun _ => [] :=
  calm_currentRule.bind fun _ => calm_pure (List.nil_subset _)

theorem calm_optional {block : Handle} {greedy : Bool} (listed : block.right ∈ known) :
    Calm rule known (optional plan block greedy) fun handle => [handle.right] := by
  refine calm_blockCheck.bind fun check => ?_
  refine Calm.bind (calm_modify fun before => ?_) fun _ => calm_setGreedy.bind fun _ => ?_
  · exact idles_of_preserves (.refl _)
  refine Calm.bind (calm_changeState fun state => ?_) fun _ => calm_pure (by simpa using listed)
  cases greedy <;> simp [State.enactments, Label.isAction]

theorem calm_fork {source inside outside : StateId} {greedy : Bool} :
    Calm rule known (fork source inside outside greedy) fun _ => [] := by
  cases greedy <;> exact calm_epsilon.bind fun _ => calm_epsilon

theorem calm_addLoopCheck {check : Check} : Calm rule known (addLoopCheck check) fun _ => [] :=
  calm_modify fun _ => idles_of_preserves (.refl _)

theorem calm_warnWildcard {body : Block} {position : Option Position} {repetition : Repetition} :
    Calm rule known (warnWildcard plan body position repetition) fun _ => [] := by
  unfold warnWildcard
  split
  · exact calm_report
  · exact calm_pure (List.nil_subset _)

theorem calm_star {body : Block} {position : Option Position} {block : Handle} {greedy : Bool} :
    Calm rule known (star plan body position block greedy) fun handle => [handle.right] := by
  refine calm_blockCheck.bind fun _ => calm_addLoopCheck.bind fun _ => calm_newState.bind fun entry => ?_
  refine calm_setGreedy.bind fun _ => (calm_discard calm_defineDecision).bind fun _ => ?_
  refine calm_newState.bind fun exit => calm_newState.bind fun loopBack => ?_
  refine calm_setKind.bind fun _ => calm_setKind.bind fun _ => ?_
  have rest : ∀ {known : List StateId}, exit ∈ known → Calm rule known (do
      fork entry block.left exit greedy
      epsilon block.right loopBack
      epsilon loopBack entry
      return (⟨entry, exit⟩ : Handle)) fun handle => [handle.right] := fun listed =>
    calm_fork.bind fun _ => calm_epsilon.bind fun _ => calm_epsilon.bind fun _ => calm_pure (by simpa using listed)
  cases greedy with
  | true => exact calm_warnWildcard.bind fun _ => rest (by simp)
  | false => exact rest (by simp)

theorem calm_plus {body : Block} {position : Option Position} {block : Handle} {greedy : Bool} :
    Calm rule known (plus plan body position block greedy) fun result => [result.1.right] := by
  refine calm_blockCheck.bind fun _ => calm_addLoopCheck.bind fun _ => calm_newState.bind fun loopBack => ?_
  refine calm_setGreedy.bind fun _ => (calm_discard calm_defineDecision).bind fun _ => ?_
  refine calm_newState.bind fun exit => calm_setBlockLoopBack.bind fun _ => calm_epsilon.bind fun _ => ?_
  cases greedy with
  | true => exact calm_warnWildcard.bind fun _ => calm_fork.bind fun _ => calm_pure (by simp)
  | false => exact calm_fork.bind fun _ => calm_pure (by simp)

theorem calm_block {body : Block} {position : Option Position} {alternatives : List Handle}
    (listed : ∀ piece ∈ alternatives, piece.right ∈ known) :
    Calm rule known (block plan body position alternatives) fun result => [result.1.right] := by
  cases alternatives with
  | nil => exact works_fail
  | cons first rest =>
      obtain ⟨choices, suffix⟩ := body
      rw [List.forall_mem_cons] at listed
      rcases suffix with _ | ⟨repetition, greedy⟩
      · simp only [block]
        split
        · exact calm_pure (by simpa using listed.1)
        · exact calm_newState.bind fun start => (calm_discard calm_defineDecision).bind fun _ =>
            calm_blockFrom.bind fun handle => calm_pure (by simp)
      · cases repetition with
        | optional =>
            exact calm_newState.bind fun start => (calm_discard calm_defineDecision).bind fun _ =>
              calm_blockFrom.bind fun inner => (calm_optional (by simp)).bind fun handle => calm_pure (by simp)
        | star =>
            refine calm_newState.bind fun start => ?_
            dsimp only
            split
            · exact (calm_discard calm_defineDecision).bind fun _ => calm_blockFrom.bind fun inner =>
                calm_star.bind fun handle => calm_pure (by simp)
            · exact calm_blockFrom.bind fun inner => calm_star.bind fun handle => calm_pure (by simp)
        | plus =>
            refine calm_newState.bind fun start => ?_
            dsimp only
            split
            · exact (calm_discard calm_defineDecision).bind fun _ => calm_blockFrom.bind fun inner => calm_plus
            · exact calm_blockFrom.bind fun inner => calm_plus

end Composition

end Build

end GrammarNetwork
