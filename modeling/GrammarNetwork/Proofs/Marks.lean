import GrammarNetwork.Proofs.Vetting

/-! Marks: a whole construction remembers states for the elements and the commands of its rules, one for each at most,
and forgets none. That of a parser leaves the tables of its network empty. -/

namespace GrammarNetwork

namespace Build

variable {α β : Type} {plan : Plan}

/-- The step remembers states for these owners at most, unless it fails. -/
def Marks (step : Build α) (owners : List Owner) : Prop :=
  ∀ before : Construction, Meets step before (fun _ after => Remembers owners before after) fun _ => True

section Combinators

variable {owners others : List Owner}

theorem Vets.marks {step : Build α} {commands : List Command} (vets : Vets plan commands step owners) :
    Marks step owners :=
  fun before => (vets before).weaken (fun _ _ vetted => vetted.marks) fun _ => id

theorem Marks.bind {step : Build α} {next : α → Build β} (first : Marks step owners)
    (second : ∀ value, Marks (next value) others) : Marks (step >>= next) (owners ++ others) := by
  intro before
  rw [meets_bind]
  refine (first before).weaken (fun value middle early => ?_) fun _ => id
  exact (second value middle).weaken (fun _ _ late => early.trans late) fun _ => id

/-- A step that remembers nothing comes first. -/
theorem Marks.then {step : Build α} {next : α → Build β} (first : Marks step [])
    (second : ∀ value, Marks (next value) owners) : Marks (step >>= next) owners :=
  first.bind second

/-- A step that remembers nothing comes last. -/
theorem Marks.first {step : Build α} {next : α → Build β} (first : Marks step owners)
    (second : ∀ value, Marks (next value) []) : Marks (step >>= next) owners := by
  rw [← List.append_nil owners]
  exact first.bind second

theorem marks_modify {change : Construction → Construction}
    (elements : ∀ before : Construction, (change before).elementStates = before.elementStates)
    (commands : ∀ before : Construction, (change before).commandStates = before.commandStates) :
    Marks (modify change) [] :=
  fun before => .of_same (elements before) (commands before)

theorem marks_modifyNetwork {change : Network → Network} : Marks (modifyNetwork change) [] :=
  fun _ => .of_same rfl rfl

theorem marks_discard {step : Build α} (marks : Marks step owners) : Marks (discard step) owners :=
  fun before => meets_discard.mpr (marks before)

theorem marks_forM {items : List α} {step : α → Build Unit} {places : α → List Owner}
    (marks : ∀ item, Marks (step item) (places item)) : Marks (items.forM step) (items.flatMap places) := by
  induction items with
  | nil => exact fun before => .of_same rfl rfl
  | cons first rest ih => exact (marks first).bind fun _ => ih

theorem vets_foldlM {step : β → α → Build β} (vets : ∀ value item, Vets plan [] (step value item)) :
    ∀ (items : List α) (value : β), Vets plan [] (items.foldlM step value)
  | [], _ => vets_pure _
  | first :: rest, value => (vets value first).then fun _ => vets_foldlM vets rest _

end Combinators

theorem marks_finishRule {index : Nat} {body : Handle} : Marks (finishRule plan index body) [] := by
  have forgets : Marks (modify fun construction => { construction with usedCommands := [] }) [] :=
    marks_modify (fun _ => rfl) fun _ => rfl
  unfold finishRule
  split
  · exact forgets.then fun _ => vets_rule.marks
  · exact vets_rule.marks

theorem marks_wholeRule {written : Rule} {index : Nat} :
    Marks (wholeRule plan written index) ((written.places index).map Item.owner) := by
  have entered : Marks (setRule index) [] := marks_modify (fun _ => rfl) fun _ => rfl
  refine (vets_note : Vets plan [] _).marks.then fun _ => entered.then fun _ => ?_
  exact vets_ruleBlock.marks.first fun body => marks_discard marks_finishRule

theorem flatMap_zipIdx_places : ∀ (rules : List Rule) (index : Nat),
    ((rules.zipIdx index).flatMap fun entry => (entry.1.places entry.2).map Item.owner) =
      (rulePlaces index rules).map Item.owner
  | [], _ => rfl
  | rule :: rest, index => by
      rw [List.zipIdx_cons, List.flatMap_cons, flatMap_zipIdx_places rest, rulePlaces, List.map_append]

theorem marks_rules : Marks (rules plan) (plan.grammar.places.map Item.owner) := by
  rw [Grammar.places, ← flatMap_zipIdx_places]
  exact marks_forM fun _ => marks_wholeRule

theorem marks_newMode (plan : Plan) (mode : String) : Marks (newMode mode) [] := by
  refine (vets_newStateIn : Vets plan [] _).marks.then fun start => marks_modifyNetwork.then fun _ => ?_
  exact (vets_defineDecision.then fun _ => vets_note : Vets plan [] _).marks

theorem vets_addFollowLinks (plan : Plan) : Vets plan [] addFollowLinks := by
  refine vets_network.then fun network => (vets_forM fun call _ => ?_).then fun _ => vets_pure _
  refine vets_network.then fun network => ?_
  cases network.ruleStops[call.1]? with
  | some stop => exact vets_epsilon
  | none => exact vets_pure ()

theorem vets_state {id : StateId} : Vets plan [] (state id) := by
  refine vets_network.then fun network => ?_
  cases network.state? id with
  | some found => exact vets_pure found
  | none => exact vets_throw

theorem vets_addEntryEnds (plan : Plan) : Vets plan [] addEntryEnds := by
  refine vets_newStateIn.then fun sink => vets_network.then fun network => ?_
  refine vets_foldlM (fun entries stop => vets_state.then fun found => ?_) _ _
  split
  · exact vets_addTransition.then fun _ => vets_pure _
  · exact vets_pure _

theorem vets_checkOptionals : Vets plan [] (checkOptionals plan) := by
  refine vets_get.then fun construction => Vets.then (vets_modify fun before => ?_) fun _ => ?_
  · exact .of_same (.refl _) rfl rfl (.of_same rfl rfl)
  · refine vets_forM fun check _ => vets_state.then fun start => vets_network.then fun network => ?_
    dsimp only
    split
    · split
      · exact vets_report rfl
      · exact vets_pure ()
    · split
      · exact vets_pure ()
      · exact vets_fail

/-- A construction remembers states for the elements and the commands of its rules. -/
theorem marks_parserNetwork : Marks (parserNetwork plan) (plan.grammar.places.map Item.owner) := by
  refine vets_newRules.marks.then fun _ => marks_rules.first fun _ => ?_
  have last : Vets plan [] (do
      let links ← addFollowLinks
      let entries ← addEntryEnds
      let construction ← get
      Build.note (.parserFinished plan.grammar.name construction.network.stateCount links entries
        construction.loopChecks.size construction.optionalChecks.size)
      checkLoops plan
      checkOptionals plan
      network) := by
    refine (vets_addFollowLinks plan).then fun _ => (vets_addEntryEnds plan).then fun _ => vets_get.then fun _ => ?_
    exact vets_note.then fun _ => vets_checkLoops.then fun _ => vets_checkOptionals.then fun _ => vets_network
  exact last.marks

theorem marks_lexerNetwork : Marks (lexerNetwork plan) (plan.grammar.places.map Item.owner) := by
  have modes : Marks (plan.grammar.modes.forM newMode) [] := by
    have none : plan.grammar.modes.flatMap (fun _ => ([] : List Owner)) = [] :=
      List.flatMap_eq_nil_iff.mpr fun _ _ => rfl
    exact none ▸ marks_forM (marks_newMode plan)
  refine modes.then fun _ => marks_modifyNetwork.then fun _ => ?_
  refine vets_newRules.marks.then fun _ => marks_rules.first fun _ => ?_
  refine (vets_get : Vets plan [] _).marks.then fun _ => (vets_note : Vets plan [] _).marks.then fun _ => ?_
  refine marks_modifyNetwork.then fun _ => (vets_forM fun _ _ => vets_linkMode).marks.then fun _ => ?_
  exact (vets_network.then fun _ => vets_note.then fun _ => vets_checkLoops.then fun _ => vets_network).marks

theorem marks_complete : Marks (complete plan) (plan.grammar.places.map Item.owner) := by
  unfold complete
  split
  · exact marks_lexerNetwork
  · exact marks_parserNetwork

section Tables

/-- The step leaves the tables of the network as they are, unless it fails. -/
def KeepsTables (step : Build α) : Prop :=
  ∀ before : Construction, Meets step before (fun _ after => before.network.SameTables after.network) fun _ => True

theorem Vets.keepsTables {step : Build α} {commands : List Command} {owners : List Owner}
    (vets : Vets plan commands step owners) : KeepsTables step :=
  fun before => (vets before).weaken (fun _ _ vetted => vetted.tables) fun _ => id

theorem KeepsTables.then {step : Build α} {next : α → Build β} (first : KeepsTables step)
    (second : ∀ value, KeepsTables (next value)) : KeepsTables (step >>= next) := by
  intro before
  rw [meets_bind]
  refine (first before).weaken (fun value middle early => ?_) fun _ => id
  exact (second value middle).weaken (fun _ _ late => early.trans late) fun _ => id

theorem keepsTables_modify {change : Construction → Construction}
    (same : ∀ before : Construction, (change before).network = before.network) : KeepsTables (modify change) := by
  intro before
  show before.network.SameTables (change before).network
  rw [same]
  exact .refl _

theorem keepsTables_forM {items : List α} {step : α → Build Unit} (keeps : ∀ item, KeepsTables (step item)) :
    KeepsTables (items.forM step) := by
  induction items with
  | nil => exact fun before => .refl before.network
  | cons first rest ih => exact (keeps first).then fun _ => ih

theorem keepsTables_finishRule {index : Nat} {body : Handle} : KeepsTables (finishRule plan index body) := by
  have forgets : KeepsTables (modify fun construction => { construction with usedCommands := [] }) :=
    keepsTables_modify fun _ => rfl
  unfold finishRule
  split
  · exact forgets.then fun _ => vets_rule.keepsTables
  · exact vets_rule.keepsTables

theorem keepsTables_wholeRule {written : Rule} {index : Nat} : KeepsTables (wholeRule plan written index) := by
  have entered : KeepsTables (setRule index) := keepsTables_modify fun _ => rfl
  refine (vets_note : Vets plan [] _).keepsTables.then fun _ => entered.then fun _ => ?_
  exact vets_ruleBlock.keepsTables.then fun body before => meets_discard.mpr (keepsTables_finishRule before)

theorem keepsTables_rules : KeepsTables (rules plan) :=
  keepsTables_forM fun _ => keepsTables_wholeRule

/-- The network of a parser has the tables that there were at first. -/
theorem sameTables_parserNetwork {before : Construction} :
    Meets (parserNetwork plan) before (fun network _ => before.network.SameTables network) fun _ => True := by
  simp only [parserNetwork, meets_bind, meets_get, meets_note, meets_network]
  refine (vets_newRules before).weaken (fun _ started first => ?_) fun _ => id
  refine (keepsTables_rules started).weaken (fun _ built second => ?_) fun _ => id
  refine (vets_addFollowLinks plan built).weaken (fun _ linked third => ?_) fun _ => id
  refine (vets_addEntryEnds plan linked).weaken (fun _ ended fourth => ?_) fun _ => id
  refine (vets_checkLoops _).weaken (fun _ looped fifth => ?_) fun _ => id
  refine (vets_checkOptionals looped).weaken (fun _ after sixth => ?_) fun _ => id
  have settled := (first.tables.trans second).trans (third.tables.trans fourth.tables)
  exact settled.trans (fifth.tables.trans sixth.tables)

end Tables

end Build

end GrammarNetwork
