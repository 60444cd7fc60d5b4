import GrammarNetwork.Construction.Basic

/-! What the steps of a construction do, stated as what holds after them. A step either ends well or fails;
both ends are described at once, so the rules below let a proof follow the text of a step. -/

namespace GrammarNetwork

namespace Build

variable {α β : Type}

/-- The step ends well as `good` says, or fails with a cause that `bad` admits. -/
def Meets (step : Build α) (before : Construction) (good : α → Construction → Prop)
    (bad : Failure → Prop) : Prop :=
  match step before with
  | .ok value after => good value after
  | .error failure _ => bad failure

section Rules

variable {before : Construction} {bad : Failure → Prop}

theorem Meets.weaken {step : Build α} {good better : α → Construction → Prop} {worse : Failure → Prop}
    (meets : Meets step before better worse)
    (implied : ∀ value after, better value after → good value after)
    (admitted : ∀ failure, worse failure → bad failure) : Meets step before good bad := by
  unfold Meets at meets ⊢
  split <;> simp_all

/-- What two descriptions of a step say holds at once. -/
theorem Meets.both {step : Build α} {good other : α → Construction → Prop} {worse : Failure → Prop}
    (first : Meets step before good bad) (second : Meets step before other worse) :
    Meets step before (fun value after => good value after ∧ other value after) bad := by
  unfold Meets at first second ⊢
  split <;> simp_all

@[simp] theorem meets_pure {value : α} {good : α → Construction → Prop} :
    Meets (pure value) before good bad ↔ good value before := Iff.rfl

@[simp] theorem meets_bind {step : Build α} {next : α → Build β} {good : β → Construction → Prop} :
    Meets (step >>= next) before good bad ↔
      Meets step before (fun value after => Meets (next value) after good bad) bad := by
  simp only [Meets, bind, EStateM.bind]
  cases step before <;> simp

@[simp] theorem meets_map {step : Build α} {change : α → β} {good : β → Construction → Prop} :
    Meets (change <$> step) before good bad ↔
      Meets step before (fun value after => good (change value) after) bad := by
  simp only [Meets, Functor.map, EStateM.map]
  cases step before <;> simp

@[simp] theorem meets_discard {step : Build α} {good : Unit → Construction → Prop} :
    Meets (discard step) before good bad ↔ Meets step before (fun _ after => good () after) bad :=
  meets_map

@[simp] theorem meets_get {good : Construction → Construction → Prop} :
    Meets get before good bad ↔ good before before := Iff.rfl

@[simp] theorem meets_modify {change : Construction → Construction} {good : Unit → Construction → Prop} :
    Meets (modify change) before good bad ↔ good () (change before) := Iff.rfl

@[simp] theorem meets_modifyGet {change : Construction → α × Construction}
    {good : α → Construction → Prop} :
    Meets (modifyGet change) before good bad ↔ good (change before).1 (change before).2 := Iff.rfl

@[simp] theorem meets_throw {failure : Failure} {good : α → Construction → Prop} :
    Meets (throw failure) before good bad ↔ bad failure := Iff.rfl

theorem meets_ite {condition : Prop} [Decidable condition] {first second : Build α}
    {good : α → Construction → Prop} :
    Meets (if condition then first else second) before good bad ↔
      (condition → Meets first before good bad) ∧ (¬condition → Meets second before good bad) := by
  split <;> simp_all

@[simp] theorem meets_network {good : Network → Construction → Prop} :
    Meets network before good bad ↔ good before.network before := Iff.rfl

@[simp] theorem meets_modifyNetwork {change : Network → Network} {good : Unit → Construction → Prop} :
    Meets (modifyNetwork change) before good bad ↔
      good () { before with network := change before.network } := Iff.rfl

@[simp] theorem meets_newStateIn {rule : Option Nat} {kind : StateKind}
    {good : StateId → Construction → Prop} :
    Meets (newStateIn rule kind) before good bad ↔
      good before.network.nextId
        { before with network := before.network.addState { rule, kind } } := Iff.rfl

@[simp] theorem meets_newState {kind : StateKind} {good : StateId → Construction → Prop} :
    Meets (newState kind) before good bad ↔
      good before.network.nextId
        { before with network := before.network.addState { rule := before.rule, kind } } := Iff.rfl

@[simp] theorem meets_setRule {rule : Nat} {good : Unit → Construction → Prop} :
    Meets (setRule rule) before good bad ↔ good () { before with rule := some rule } := Iff.rfl

@[simp] theorem meets_note {note : Note} {good : Unit → Construction → Prop} :
    Meets (Build.note note) before good bad ↔
      good () { before with journal := before.journal.note note } := Iff.rfl

theorem meets_report {plan : Plan} {problem : Problem} {position : Option Position}
    {arguments : List String} {good : Unit → Construction → Prop} :
    Meets (report plan problem position arguments) before good bad ↔
      good () { before with
        journal := before.journal.report { problem, file := plan.grammar.fileName, position, arguments } } :=
  Iff.rfl

theorem meets_fail {plan : Plan} {cause : Inconsistency} {good : α → Construction → Prop} :
    Meets (fail plan cause) before good bad ↔ bad (.inconsistent cause) := by
  simp [fail, meets_report]

theorem meets_currentRule {plan : Plan} {index : Nat} (current : before.rule = some index)
    {good : Nat → Construction → Prop} :
    Meets (currentRule plan) before good bad ↔ good index before := by
  simp [currentRule, current]

theorem meets_state {id : StateId} {found : State} (live : before.network.state? id = some found)
    {good : State → Construction → Prop} : Meets (state id) before good bad ↔ good found before := by
  simp [state, live]

theorem meets_changeState {id : StateId} {change : State → State} (live : before.network.isLive id = true)
    {good : Unit → Construction → Prop} :
    Meets (changeState id change) before good bad ↔
      good () { before with network := before.network.modifyState id change } := by
  simp [changeState, live]

theorem meets_addTransition {source : StateId} {transition : Transition}
    (live : before.network.isLive source = true) {good : Unit → Construction → Prop} :
    Meets (addTransition source transition) before good bad ↔
      good () { before with network := before.network.addTransition source transition } := by
  simp [addTransition, live]

theorem meets_epsilon {source target : StateId} (live : before.network.isLive source = true)
    {good : Unit → Construction → Prop} :
    Meets (epsilon source target) before good bad ↔
      good () { before with network := before.network.addTransition source ⟨target, .epsilon⟩ } :=
  meets_addTransition live

theorem meets_defineDecision {id : StateId} {found : State} (live : before.network.state? id = some found)
    (undecided : found.decision = none) {good : Nat → Construction → Prop} :
    Meets (defineDecision id) before good bad ↔
      good before.network.decisions.size
        { before with
          network := before.network.pushDecision id
          journal := before.journal.note (.decisionDefined id before.network.decisions.size) } := by
  simp [defineDecision, Network.decisionNumber?, Network.defineDecision, live, undecided]

end Rules

end Build

end GrammarNetwork
