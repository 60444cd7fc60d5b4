import GrammarNetwork.Proofs.Ledgers

/-! The actions of a lexer. Every step of a construction runs the errands of what it builds, one transition for each and
in the order of the text, so that the transitions of a whole network run what the grammar says, by a table that has
every action once. -/

namespace GrammarNetwork

namespace Build

variable {α β : Type}

section Leaves

variable {index : Nat} {known : List StateId} {plan : Plan} {position : Option Position}

theorem Gives.works {step : Build α} {value : α} (gives : Gives index step value) {next : α → Build β}
    {tasks : List Task} {ends : β → List StateId} (works : Works (some index) known (next value) tasks ends) :
    Works (some index) known (step >>= next) tasks ends := by
  intro before current inert
  obtain ⟨journal, _, ended⟩ := gives before current
  have idle : before.Idles { before with journal } := idles_of_preserves (.refl _)
  have first : Meets step before (fun other after => other = value ∧ after = { before with journal })
      fun _ => True := by
    simp only [Meets, ended, and_self]
  rw [meets_bind]
  refine first.weaken ?_ fun _ => id
  rintro _ _ ⟨rfl, rfl⟩
  refine (works { before with journal } current inert).weaken (fun result after => ?_) fun _ => id
  rintro ⟨same, advances, ended⟩
  exact ⟨same, advances.after_idles idle, ended⟩

/-- A step that reports or fails runs no errands. Where there are some, it fails. -/
theorem Quiet.works {step : Build α} {faults : List Failure} (quiet : Quiet index faults step)
    {tasks : List Task} (nothing : faults = [] → tasks = []) :
    Works (some index) known step tasks fun _ => [] := by
  intro before current inert
  rcases quiet with ⟨none, value, gives⟩ | ⟨failure, _, refuses⟩
  · rw [nothing none]
    have calm : Calm (some index) known (step >>= pure) fun _ => [] := gives.works (calm_pure (List.nil_subset _))
    rw [bind_pure] at calm
    exact calm before current inert
  · obtain ⟨after, ended⟩ := refuses before current
    simp only [Meets, ended]

theorem calm_ruleLeaf {name : String} {precedence : Option Int} :
    Calm (some index) known (ruleLeaf plan name precedence position) fun handle => [handle.right] := by
  unfold ruleLeaf
  split
  · exact calm_report.bind fun _ => works_throw
  · exact calm_ruleStates.bind fun _ => calm_newState.bind fun left => calm_newState.bind fun right =>
      (calm_addTransition rfl).bind fun _ => calm_pure (by simp)

theorem calm_characterChain : ∀ {text : List Char} {start : StateId} {known : List StateId}, start ∈ known →
    Calm (some index) known (characterChain plan position start text) fun id => [id]
  | [], _, _, listed => calm_pure (by simpa using listed)
  | character :: rest, _, _, _ =>
      calm_newState.bind fun right => gives_rangeTransition.works
        ((calm_addTransition (Label.not_isAction_of_reads (reads_rangeSymbol _ _ _ _))).bind fun _ =>
          calm_characterChain (by simp))

theorem calm_predicateLeaf {code : String} {number : Nat} {precedence : Option Int} :
    Calm (some index) known (predicateLeaf plan code number precedence) fun handle => [handle.right] := by
  cases precedence with
  | none => exact calm_currentRule.bind fun rule => calm_atom rfl
  | some level => exact calm_atom rfl

variable (lexer : plan.kind = .lexer)

include lexer

theorem calm_tokenLeaf {name : String} :
    Calm (some index) known (tokenLeaf plan name position) fun handle => [handle.right] := by
  simp only [tokenLeaf, lexer]
  split
  · exact calm_atom rfl
  · exact calm_ruleLeaf

theorem calm_literalLeaf {text : String} :
    Calm (some index) known (literalLeaf plan text position) fun handle => [handle.right] := by
  simp only [literalLeaf, lexer]
  refine calm_newState.bind fun left => ?_
  split
  · exact calm_report.bind fun _ => calm_pure (by simp)
  · split
    · exact calm_report.bind fun _ => calm_pure (by simp)
    · exact (calm_characterChain (by simp)).bind fun right => calm_pure (by simp)

theorem calm_charSetLeaf {text : String} :
    Calm (some index) known (charSetLeaf plan text position) fun handle => [handle.right] := by
  simp only [charSetLeaf, lexer]
  exact Calm.bind (quiet_charSet.works fun _ => rfl) fun set => calm_atom rfl

theorem calm_rangeLeaf {first last : String} :
    Calm (some index) known (rangeLeaf plan first last position) fun handle => [handle.right] := by
  simp only [rangeLeaf, lexer]
  refine calm_newState.bind fun left => calm_newState.bind fun right => gives_rangeEnds?.works ?_
  cases rangeEnds first last with
  | none => exact calm_pure (by simp)
  | some ends =>
      exact gives_rangeTransition.works
        ((calm_addTransition (Label.not_isAction_of_reads (reads_rangeSymbol _ _ _ _))).bind fun _ =>
          calm_pure (by simp))

end Leaves

section Running

variable {before : Construction} {item : Item} {known : List StateId} {plan : Plan} {bad : Failure → Prop}

theorem meets_actionIndex {action : LexerAction} {good : Nat → Construction → Prop} :
    Meets (actionIndex action) before good bad ↔
      good (internAction before.actions action).1
        { before with actions := (internAction before.actions action).2 } := by
  simp only [actionIndex, internAction, meets_bind, meets_get]
  cases before.actions.idxOf? action <;> rfl

theorem meets_perform {action : LexerAction} {rule : Nat} (current : before.rule = some rule)
    {good : Handle → Construction → Prop} :
    Meets (actionLeaf plan action) before good bad ↔
      good ⟨before.network.nextId, before.network.nextId + 1⟩ (before.perform rule action) := by
  simp only [actionLeaf, meets_bind, meets_currentRule current, meets_actionIndex, atom, meets_newState]
  rw [meets_addTransition (by simp [Network.isLive])]
  simp [Construction.perform, Network.addAtom]

/-- The transition performs the errand. Code that has no number gets the next one. -/
theorem advances_perform {errand : Errand} {action : LexerAction} (current : before.rule = some item.site.rule)
    (enacted : enact before.nextAction [(item, errand)] = [(item, action)]) :
    let ready := { before with nextAction := before.nextAction + draws [(item, errand)] }
    Advances before (item.mark before.network.nextId (ready.perform item.site.rule action)) [(item, errand)] := by
  intro ready
  refine ⟨fun id inert => ?_, ?_, by simp, ?_, fun done ledger => ?_⟩
  · rw [Item.network_mark]
    exact inert.addAtom
  · rw [Item.network_mark]
    rfl
  · rw [Item.nextAction_mark]
    rfl
  · have same : Ledger ready done := ledger.mono ⟨List.Subset.refl _, List.Subset.refl _⟩ rfl rfl
    rw [enacted]
    exact same.perform current action

theorem meets_errand {errand : Errand} {action : LexerAction} (current : before.rule = some item.site.rule)
    (enacted : enact before.nextAction [(item, errand)] = [(item, action)]) :
    Meets (actionLeaf plan action) { before with nextAction := before.nextAction + draws [(item, errand)] }
      (fun handle after => (item.mark handle.left after).rule = some item.site.rule ∧
        Advances before (item.mark handle.left after) [(item, errand)] ∧
        ∀ id ∈ [handle.right], (item.mark handle.left after).network.Inert id) bad := by
  have now : { before with nextAction := before.nextAction + draws [(item, errand)] }.rule = some item.site.rule :=
    current
  refine (meets_perform now).mpr ⟨(item.rule_mark _ _).trans current, advances_perform current enacted, ?_⟩
  simp only [List.mem_singleton, forall_eq, Item.network_mark]
  exact Network.inert_addAtom

/-- An errand whose action is settled beforehand. -/
theorem works_settled (item : Item) {errand : Errand} {action : LexerAction} (none : draws [(item, errand)] = 0)
    (enacted : ∀ next, enact next [(item, errand)] = [(item, action)]) :
    Works (some item.site.rule) known (do
      let handle ← actionLeaf plan action
      modify (item.mark handle.left)
      return handle) [(item, errand)] fun handle => [handle.right] := by
  intro before current _
  have meets := @meets_errand before item plan (fun _ => True) errand action current (enacted _)
  rw [none, Nat.add_zero] at meets
  simpa only [meets_bind, meets_modify, meets_pure] using meets

theorem works_numbered (item : Item) :
    Works (some item.site.rule) known (do
      let number ← newActionNumber
      let handle ← actionLeaf plan (.custom item.site.rule number)
      modify (item.mark handle.left)
      return handle) [(item, .code none)] fun handle => [handle.right] := by
  intro before current _
  simp only [newActionNumber, meets_bind, meets_get, meets_modify, meets_pure]
  have enacted : enact before.nextAction [(item, .code none)] =
      [(item, .custom item.site.rule before.nextAction)] := rfl
  exact meets_errand current enacted

end Running

section Elements

variable {plan : Plan} {known : List StateId}

theorem gives_currentRule {index : Nat} : Gives index (currentRule plan) index := by
  intro before current
  refine ⟨before.journal, .refl _, ?_⟩
  cases before
  cases current
  rfl

theorem calm_markElement {rule : Option Nat} {site : Site} {id : StateId} :
    Calm rule known (markElement site id) fun _ => [] :=
  calm_modify fun _ => ⟨⟨List.subset_cons_self _ _, List.Subset.refl _⟩, .refl _, rfl, rfl, rfl⟩

theorem calm_markCommand {rule : Option Nat} {site : Site} {id : StateId} :
    Calm rule known (markCommand site id) fun _ => [] :=
  calm_modify fun _ => ⟨⟨List.Subset.refl _, List.subset_cons_self _ _⟩, .refl _, rfl, rfl, rfl⟩

/-- Marks the state of a command, if there is one. -/
def finishCommand (site : Site) (built : Handle × Option StateId) : Build Handle := do
  match built.2 with
  | some state => markCommand site state
  | none => pure ()
  return built.1

theorem commands_cons {site : Site} {alternative index : Nat} {first : Command} {rest : List Command} :
    commands plan site alternative index (first :: rest) = (do
      let handle ← command plan first >>= finishCommand (site.child alternative index)
      let rest ← commands plan site alternative (index + 1) rest
      return handle :: rest) := by
  simp only [commands, finishCommand, bind_assoc]
  refine congrArg (command plan first >>= ·) (funext fun built => ?_)
  obtain ⟨handle, mark⟩ := built
  cases mark <;> simp

section Commands

variable {site : Site} {written : Command}

/-- A command that runs nothing has a transition all the same. -/
theorem calm_silent {rule : Option Nat} :
    Calm rule known ((do return (← atom .epsilon, none)) >>= finishCommand site) fun handle => [handle.right] := by
  rw [bind_assoc]
  exact (calm_atom rfl).bind fun handle => calm_pure (by simp)

theorem calm_reported {rule : Option Nat} {problem : Problem} {position : Option Position} {arguments : List String} :
    Calm rule known ((do
      report plan problem position arguments
      return (← atom .epsilon, none)) >>= finishCommand site) fun handle => [handle.right] := by
  rw [bind_assoc]
  exact calm_report.bind fun _ => calm_silent

theorem works_builtin {builtin : Builtin} :
    Works (some site.rule) known ((do
        match ← builtinAction? plan written builtin with
        | some action => do
            let handle ← actionLeaf plan action
            return (handle, some handle.left)
        | none => return (← atom .epsilon, none)) >>= finishCommand site)
      (((builtin.action? plan.grammar written.argument).map .common).map (Item.command site written, ·)).toList
      fun handle => [handle.right] := by
  rw [bind_assoc]
  refine gives_builtinAction?.works ?_
  cases builtin.action? plan.grammar written.argument with
  | none => exact calm_silent
  | some action =>
      simp only [bind_assoc]
      exact works_settled (.command site written) rfl fun _ => rfl

theorem works_rendered {template : Template} (fits : template.takesArgument = written.argument.isSome) :
    Works (some site.rule) known ((do
        let handle ← inlineAction plan (template.render written.argument)
        return (handle, some handle.left)) >>= finishCommand site)
      ((template.errand? written.argument).map (Item.command site written, ·)).toList fun handle => [handle.right] := by
  rw [bind_assoc]
  unfold inlineAction
  split
  · rename_i blank
    have none : template.errand? written.argument = none := if_neg fun both => both.2 blank
    rw [none]
    exact (calm_atom rfl).bind fun handle => calm_markCommand.bind fun _ => calm_pure (by simp)
  · rename_i code
    have runs : template.errand? written.argument = some (.code none) := if_pos ⟨fits, code⟩
    rw [runs]
    simp only [bind_assoc]
    exact gives_currentRule.works (works_numbered (.command site written))

theorem works_templateCommand {template : Template} :
    Works (some site.rule) known (templateCommand plan written template >>= finishCommand site)
      ((template.errand? written.argument).map (Item.command site written, ·)).toList fun handle => [handle.right] := by
  have wrong : template.takesArgument ≠ written.argument.isSome → template.errand? written.argument = none :=
    fun differs => if_neg fun both => differs both.1
  unfold templateCommand
  split
  · rename_i takes absent
    rw [wrong (by simp [takes, absent])]
    exact calm_reported
  · rename_i takes present
    rw [wrong (by simp [takes, present])]
    exact calm_reported
  · refine works_rendered ?_
    cases takes : template.takesArgument <;> cases given : written.argument <;> simp_all

/-- A command of a lexer runs its errand. -/
theorem works_command (lexer : plan.kind = .lexer) (site : Site) :
    Works (some site.rule) known (command plan written >>= finishCommand site)
      (plan.tasks [.command site written]) fun handle => [handle.right] := by
  simp only [command, lexer, lexerCommand, bind_assoc]
  refine calm_get.bind fun construction => (calm_forM fun _ _ => calm_report).bind fun _ => ?_
  refine Calm.bind (calm_modify fun _ => idles_of_preserves (.refl _)) fun _ => ?_
  rw [Plan.tasks_singleton]
  simp only [Plan.errand?, Plan.commandErrand?]
  cases builtin? written.name with
  | some builtin => exact works_builtin
  | none =>
      cases plan.templates (templateName written.name) with
      | none => exact calm_reported
      | some template => exact works_templateCommand

end Commands

theorem works_commands (lexer : plan.kind = .lexer) (site : Site) {alternative : Nat} :
    ∀ {written : List Command} {index : Nat} {known : List StateId},
      Works (some site.rule) known (commands plan site alternative index written)
        (plan.tasks (commandItems site alternative index written)) fun handles => handles.map Handle.right
  | [], _, _ => calm_pure (List.nil_subset _)
  | first :: rest, index, known => by
      have front : Works (some site.rule) known
          (command plan first >>= finishCommand (site.child alternative index)) _ _ :=
        works_command lexer (site.child alternative index)
      rw [commands_cons, commandItems, ← List.singleton_append, plan.tasks_append]
      exact front.cons (works_commands lexer site)

theorem works_assemble (lexer : plan.kind = .lexer) (site : Site) {alternative : Nat} {elements : List Handle}
    {written : List Command} (listed : ∀ piece ∈ elements, piece.right ∈ known) :
    Works (some site.rule) known (assemble plan site alternative elements written)
      (plan.tasks (commandItems site alternative 0 written)) fun handle => [handle.right] := by
  have behind : ∀ {body : Handle} {known : List StateId}, body.right ∈ known →
      Works (some site.rule) known (do
          if written.isEmpty then return body
          else do
            let handles ← commands plan site alternative 0 written
            let behind ← sequence plan handles
            attachCommands plan body behind)
        (plan.tasks (commandItems site alternative 0 written)) fun handle => [handle.right] := by
    intro body known member
    cases written with
    | nil => exact calm_pure (by simpa using member)
    | cons first rest =>
        simp only [List.isEmpty_cons, Bool.false_eq_true, ↓reduceIte, attachCommands, lexer]
        exact (works_commands lexer site).bind_calm fun handles => (calm_sequence right_mem_append).bind fun tail =>
          calm_epsilon.bind fun _ => calm_pure (by simp)
  simp only [assemble]
  split
  · exact (calm_atom rfl).bind fun body => behind (by simp)
  · exact (calm_sequence listed).bind fun body => behind (by simp)

/-- An element with its mark. -/
def markedElement (plan : Plan) (site : Site) (written : Element) : Build Handle := do
  let (handle, mark) ← element plan site written
  markElement site mark
  return handle

theorem elementList_cons {site : Site} {alternative index : Nat} {first : Element} {rest : List Element} :
    elementList plan site alternative index (first :: rest) = (do
      let handle ← markedElement plan (site.child alternative index) first
      let rest ← elementList plan site alternative (index + 1) rest
      return handle :: rest) := by
  simp only [elementList, markedElement, bind_assoc, pure_bind]

theorem works_marked {rule : Option Nat} {site : Site} {leaf : Build Handle} {tasks : List Task}
    (works : Works rule known leaf tasks fun handle => [handle.right]) :
    Works rule known ((do
      let handle ← leaf
      return (handle, handle.left)) >>= fun built => do
        markElement site built.2
        return built.1) tasks fun handle => [handle.right] := by
  rw [bind_assoc]
  exact works.bind_calm fun handle => calm_markElement.bind fun _ => calm_pure (by simp)

theorem works_actionElement (lexer : plan.kind = .lexer) {site : Site} {code : String} {number : Option Nat}
    {position : Option Position} :
    Works (some site.rule) known (markedElement plan site ⟨.action code number, position⟩)
      [(.element site ⟨.action code number, position⟩, .code number)] fun handle => [handle.right] := by
  simp only [markedElement, element, actionElement, lexer, bind_assoc, pure_bind]
  refine gives_currentRule.works ?_
  cases number with
  | none => exact works_numbered (.element site ⟨.action code none, position⟩)
  | some number =>
      dsimp only
      exact works_settled (.element site ⟨.action code (some number), position⟩) rfl fun _ => rfl

theorem tasks_of_itemFaults {site : Site} {item : Element} (fine : itemFaults item = []) :
    plan.tasks (elementItems site item) = [] := by
  obtain ⟨form, position⟩ := item
  cases form with
  | range | charSet | literal | token => rfl
  | _ => cases fine

theorem tasks_of_items {site : Site} {alternative : Nat} : ∀ {items : List Element} {index : Nat},
    items.flatMap itemFaults = [] → plan.tasks (listItems site alternative index items) = []
  | [], _, _ => rfl
  | first :: rest, index, fine => by
      rw [List.flatMap_cons, List.append_eq_nil_iff] at fine
      rw [listItems, plan.tasks_append, tasks_of_itemFaults fine.1, tasks_of_items fine.2, List.append_nil]

/-- Nothing runs in a set: one with an action among its items is not built. -/
theorem works_setLeaf (lexer : plan.kind = .lexer) (site : Site) {items : List Element} {inverted : Bool}
    {position : Option Position} :
    Works (some site.rule) known (setLeaf plan items inverted position) (plan.tasks (listItems site 0 0 items))
      fun handle => [handle.right] := by
  simp only [setLeaf, lexer]
  exact ((quiet_addSetItems items).works tasks_of_items).bind_calm fun set => calm_atom
    (Label.not_isAction_of_reads (reads_lexerSetLabel _ _))

-- A piece runs what stands in its part of the text, and nothing runs from its end on.
mutual

theorem works_element (lexer : plan.kind = .lexer) : ∀ (written : Element) (site : Site) {known : List StateId},
    Works (some site.rule) known (markedElement plan site written) (plan.tasks (elementItems site written))
      fun handle => [handle.right]
  | ⟨.block ⟨alternatives, suffix⟩, position⟩, site, known => by
      simp only [markedElement, element, bind_assoc]
      have same : plan.tasks (elementItems site ⟨.block ⟨alternatives, suffix⟩, position⟩) =
          plan.tasks (alternativeItems site 0 alternatives) := by
        rw [elementItems]
        rfl
      rw [same]
      exact (works_alternatives lexer alternatives site 0).bind_calm fun handles =>
        (calm_block right_mem_append).bind fun built => calm_markElement.bind fun _ => calm_pure (by simp)
  | ⟨.action code number, position⟩, _, _ => works_actionElement lexer
  | ⟨.token name, position⟩, _, _ => works_marked (calm_tokenLeaf lexer)
  | ⟨.rule name precedence, position⟩, _, _ => works_marked calm_ruleLeaf
  | ⟨.literal text, position⟩, _, _ => works_marked (calm_literalLeaf lexer)
  | ⟨.charSet text, position⟩, _, _ => works_marked (calm_charSetLeaf lexer)
  | ⟨.range first last, position⟩, _, _ => works_marked (calm_rangeLeaf lexer)
  | ⟨.set items inverted, position⟩, site, _ => works_marked (works_setLeaf lexer site)
  | ⟨.wildcard, position⟩, _, _ => works_marked (calm_atom rfl)
  | ⟨.predicate code number precedence, position⟩, _, _ => works_marked calm_predicateLeaf

theorem works_elementList (lexer : plan.kind = .lexer) : ∀ (written : List Element) (site : Site)
    (alternative index : Nat) {known : List StateId},
    Works (some site.rule) known (elementList plan site alternative index written)
      (plan.tasks (listItems site alternative index written)) fun handles => handles.map Handle.right
  | [], _, _, _, _ => calm_pure (List.nil_subset _)
  | first :: rest, site, alternative, index, known => by
      have front : Works (some site.rule) known (markedElement plan (site.child alternative index) first) _ _ :=
        works_element lexer first (site.child alternative index)
      rw [elementList_cons, listItems, plan.tasks_append]
      exact front.cons (works_elementList lexer rest site alternative (index + 1))

theorem works_alternatives (lexer : plan.kind = .lexer) : ∀ (written : List Alternative) (site : Site) (index : Nat)
    {known : List StateId},
    Works (some site.rule) known (alternativeList plan site index written)
      (plan.tasks (alternativeItems site index written)) fun handles => handles.map Handle.right
  | [], _, _, _ => calm_pure (List.nil_subset _)
  | ⟨elements, commands⟩ :: rest, site, index, known => by
      rw [alternativeList, alternativeItems, plan.tasks_append, plan.tasks_append]
      refine (works_elementList lexer elements site index 0).bind fun handles => ?_
      exact (works_assemble lexer site right_mem_append).cons (works_alternatives lexer rest site (index + 1))

end

end Elements

section Networks

variable {plan : Plan} {rule : Option Nat} {known : List StateId}

theorem works_ruleBlock (lexer : plan.kind = .lexer) (site : Site) {body : Block} :
    Works (some site.rule) known (ruleBlock plan site body) (plan.tasks (alternativeItems site 0 body.alternatives))
      fun handle => [handle.right] := by
  exact (works_alternatives lexer body.alternatives site 0).bind_calm fun handles =>
    (calm_block right_mem_append).bind fun built => calm_pure (by simp)

theorem calm_rule {index : Nat} {body : Handle} : Calm rule known (Build.rule plan index body) fun _ => [] :=
  calm_ruleStates.bind fun _ => calm_epsilon.bind fun _ => calm_epsilon.bind fun _ => calm_pure (List.nil_subset _)

theorem calm_finishRule {index : Nat} {body : Handle} :
    Calm rule known (finishRule plan index body) fun _ => [] := by
  unfold finishRule
  split
  · exact Calm.bind (calm_modify fun _ => idles_of_preserves (.refl _)) fun _ => calm_rule
  · exact calm_rule

theorem Works.meets {step : Build α} {tasks : List Task} {ends : α → List StateId} {before : Construction}
    (works : Works before.rule [] step tasks ends) :
    Meets step before (fun _ after => Advances before after tasks) fun _ => True :=
  (works before rfl (by simp)).weaken (fun _ _ holds => holds.2.1) fun _ => id

theorem advances_enter (before : Construction) (rule : Option Nat) (journal : Journal) :
    Advances before { before with rule, journal } [] := by
  refine ⟨fun _ => id, rfl, fun _ => rfl, rfl, fun done ledger => ?_⟩
  rw [enact, List.append_nil]
  exact ledger.mono ⟨List.Subset.refl _, List.Subset.refl _⟩ rfl rfl

theorem advances_wholeRule (lexer : plan.kind = .lexer) {written : Rule} {index : Nat} {before : Construction} :
    Meets (wholeRule plan written index) before
      (fun _ after => Advances before after (plan.tasks (alternativeItems ⟨index, []⟩ 0 written.alternatives)))
      fun _ => True := by
  simp only [wholeRule, meets_bind, meets_note, meets_setRule]
  rw [← meets_bind]
  have works : Works (some index) [] (do
        let body ← ruleBlock plan ⟨index, []⟩ written.body
        discard (finishRule plan index body))
      (plan.tasks (alternativeItems ⟨index, []⟩ 0 written.alternatives)) fun _ => [] :=
    (works_ruleBlock lexer ⟨index, []⟩).bind_calm fun body => calm_discard calm_finishRule
  refine works.meets.weaken (fun _ after advances => ?_) fun _ => id
  exact (advances_enter before _ _).trans advances

theorem advances_rules (lexer : plan.kind = .lexer) : ∀ {written : List Rule} {index : Nat} {before : Construction},
    Meets ((written.zipIdx index).forM fun entry => wholeRule plan entry.1 entry.2) before
      (fun _ after => Advances before after (plan.tasks (ruleItems index written))) fun _ => True
  | [], _, before => advances_enter before before.rule before.journal
  | rule :: rest, index, before => by
      rw [List.zipIdx_cons, List.forM, meets_bind, ruleItems, plan.tasks_append]
      refine (advances_wholeRule lexer).weaken (fun _ middle first => ?_) fun _ => id
      exact (advances_rules lexer).weaken (fun _ after second => first.trans second) fun _ => id

theorem calm_newMode {mode : String} : Calm rule known (newMode mode) fun _ => [] := by
  refine calm_newStateIn.bind fun start => Calm.bind (calm_modifyNetwork fun _ => ?_) fun _ => ?_
  · exact Network.preserves_of_states rfl rfl
  · exact calm_defineDecision.bind fun _ => calm_note

theorem calm_newRules : Calm rule known (newRules plan) fun _ => [] := by
  refine calm_forM fun entry _ => ?_
  refine calm_network.bind fun network => (calm_discard calm_newStateIn).bind fun _ => ?_
  refine calm_newStateIn.bind fun stop => ?_
  exact calm_modifyNetwork fun _ => Network.preserves_of_states rfl rfl

theorem calm_linkMode {mode : String} {index : Nat} : Calm rule known (linkMode plan mode index) fun _ => [] := by
  refine calm_network.bind fun network => ?_
  split
  · exact calm_pure (List.nil_subset _)
  · refine calm_forM fun entry _ => ?_
    split
    · refine calm_network.bind fun network => ?_
      split
      · exact calm_epsilon
      · exact calm_pure (List.nil_subset _)
    · exact calm_pure (List.nil_subset _)

theorem calm_checkLoop {check : Check} : Calm rule known (checkLoop plan check) fun _ => [] := by
  refine calm_network.bind fun network => ?_
  dsimp only
  split
  · exact calm_pure (List.nil_subset _)
  · split
    · refine calm_report.bind fun _ => ?_
      split
      · exact calm_report
      · exact calm_pure (List.nil_subset _)
    · split
      · exact calm_report
      · exact calm_pure (List.nil_subset _)

theorem calm_checkLoops : Calm rule known (checkLoops plan) fun _ => [] := by
  refine calm_get.bind fun construction => Calm.bind (calm_modify fun _ => ?_) fun _ => ?_
  · exact idles_of_preserves (.refl _)
  · exact calm_forM fun _ _ => calm_checkLoop

/-- The network of a lexer runs the errands of the grammar, and has the table. -/
theorem advances_lexerNetwork (lexer : plan.kind = .lexer) {before : Construction} :
    Meets (lexerNetwork plan) before (fun network after => network = after.network ∧
      network.lexerActions = after.actions ∧
      ∀ done, Ledger before done → Ledger after (done ++ enact before.nextAction (plan.tasks plan.grammar.items)))
      fun _ => True := by
  simp only [lexerNetwork, meets_bind, meets_get, meets_note, meets_modifyNetwork, meets_network]
  refine (calm_forM fun _ _ => calm_newMode).meets.weaken (fun _ modes first => ?_) fun _ => id
  refine calm_newRules.meets.weaken (fun _ started second => ?_) fun _ => id
  refine (advances_rules lexer).weaken (fun _ built third => ?_) fun _ => id
  refine (calm_forM fun _ _ => calm_linkMode).meets.weaken (fun _ linked fourth => ?_) fun _ => id
  refine calm_checkLoops.meets.weaken (fun _ after fifth => ?_) fun _ => id
  have typed : Advances modes started [] :=
    second.after_idles (idles_of_preserves (Network.preserves_of_states rfl rfl))
  have noted : Advances linked after [] := fifth.after_idles (idles_of_preserves (.refl _))
  have early := first.trans (typed.trans third)
  have late := fourth.trans noted
  refine ⟨trivial, late.table.trans (late.still rfl).symm, fun done ledger => ?_⟩
  -- Setting the table of the network in between leaves the ledger as it is.
  have filled := late.ledger _ ((early.ledger done ledger).mono ⟨List.Subset.refl _, List.Subset.refl _⟩ rfl rfl)
  rwa [List.append_nil, enact, List.append_nil] at filled

end Networks

end Build

theorem Plan.ledger_of_run {plan : Plan} (lexer : plan.kind = .lexer) {journal : Journal} {network : Network}
    {after : Construction} (ends : plan.run journal = .ok network after) :
    network = after.network ∧ network.lexerActions = after.actions ∧ Ledger after plan.deeds := by
  have start : Ledger (plan.start journal) [] := ⟨.nil, List.nodup_nil, by simp [Plan.start]⟩
  have meets : Build.Meets (Build.lexerNetwork plan) (plan.start journal) _ _ := Build.advances_lexerNetwork lexer
  have built : Build.lexerNetwork plan (plan.start journal) = .ok network after := by
    simpa [Plan.run, Build.complete, lexer, EStateM.run] using ends
  rw [Build.Meets, built] at meets
  exact ⟨meets.1, meets.2.1, meets.2.2 [] start⟩

/-- The index of the action that runs. -/
def Label.actionIndex? : Label → Option Nat
  | .action _ index _ => index
  | _ => none

namespace Ledger

variable {after : Construction} {deeds : List Deed} (ledger : Ledger after deeds)

include ledger

theorem index_eq {first second : Nat} {action : LexerAction} (found : after.actions[first]? = some action)
    (again : after.actions[second]? = some action) : first = second := by
  rw [← Array.getElem?_toList] at found again
  have bound := (List.getElem?_eq_some_iff.mp found).1
  exact (List.getElem?_inj bound ledger.once).mp (found.trans again.symm)

/-- Every transition that runs an action performs a deed, in the rule of its state. -/
theorem indexed {id : StateId} {state : State} (found : after.network.state? id = some state) {transition : Transition}
    (leaves : transition ∈ state.transitions) {rule : Nat} {index : Option Nat} {contextDependent : Bool}
    (labelled : transition.label = .action rule index contextDependent) :
    state.rule = some rule ∧ ∃ entry < after.actions.size, index = some entry := by
  have member : ⟨id, state.rule, transition.label⟩ ∈ after.network.enactments :=
    Network.mem_enactments.mpr ⟨state, found, State.mem_enactments.mpr
      ⟨rfl, rfl, by simp [labelled, Label.isAction], transition, leaves, rfl⟩⟩
  rw [← List.map_fst_zip (Nat.le_of_eq ledger.runs.length_eq), List.mem_map] at member
  obtain ⟨⟨_, deed⟩, paired, rfl⟩ := member
  obtain ⟨_, owner, entry, label, known⟩ := List.forall₂_zip ledger.runs paired
  cases labelled.symm.trans label
  exact ⟨owner, entry, (Array.getElem?_eq_some_iff.mp known).1, rfl⟩

theorem index_eq_iff {first second : Enactment × Deed} (member : first ∈ after.network.enactments.zip deeds)
    (other : second ∈ after.network.enactments.zip deeds) :
    first.1.label.actionIndex? = second.1.label.actionIndex? ↔ first.2.2 = second.2.2 := by
  obtain ⟨_, _, index, label, known⟩ := List.forall₂_zip ledger.runs member
  obtain ⟨_, _, again, name, present⟩ := List.forall₂_zip ledger.runs other
  rw [label, name]
  constructor
  · rintro ⟨⟩
    exact Option.some.inj (known.symm.trans present)
  · intro same
    rw [← same] at present
    exact congrArg some (ledger.index_eq known present)

/-- What was done is done along a transition. -/
theorem exists_enactment {deed : Deed} (done : deed ∈ deeds) :
    ∃ run ∈ after.network.enactments, Performs after.actions after run deed := by
  rw [← List.map_snd_zip (Nat.le_of_eq ledger.runs.length_eq.symm), List.mem_map] at done
  obtain ⟨⟨run, deed⟩, paired, rfl⟩ := done
  exact ⟨run, (List.of_mem_zip paired).1, List.forall₂_zip ledger.runs paired⟩

/-- An entry of the table is there for a deed, and so for the transition that performs it. -/
theorem exists_transition {entry : Nat} (bound : entry < after.actions.size) :
    ∃ id state, after.network.state? id = some state ∧
      ∃ transition ∈ state.transitions, transition.label.actionIndex? = some entry := by
  obtain ⟨deed, listed, same⟩ := List.mem_map.mp (ledger.used _ (Array.getElem_mem bound))
  obtain ⟨run, enacted, _, _, index, label, known⟩ := ledger.exists_enactment listed
  obtain ⟨state, found, among⟩ := Network.mem_enactments.mp enacted
  obtain ⟨_, _, _, transition, leaves, labelled⟩ := State.mem_enactments.mp among
  have present : after.actions[entry]? = some (after.actions[entry]) := Array.getElem?_eq_getElem bound
  rw [← same] at present
  refine ⟨run.source, state, found, transition, leaves, ?_⟩
  rw [labelled, label]
  exact congrArg some (ledger.index_eq known present)

end Ledger

/-- The table of a lexer has every action once, and each is run; every transition that runs an action has an index in
the table and the rule of its state. These transitions perform the errands of the grammar in the order of the text, and
two of them have the same index just when they stand for the same action. All code has a number of its own. -/
theorem Draft.run_actions (draft : Draft) (lookahead : Lookahead) (templates : Templates) (journal : Journal) :
    match draft.kind, draft.build with
    | .lexer, .ok grammar =>
        let plan : Plan := { grammar, kind := .lexer, lookahead, templates }
        match plan.run journal with
        | .error _ _ => True
        | .ok network after =>
            network.lexerActions.toList.Nodup ∧
            (∀ id state, network.state? id = some state → ∀ transition ∈ state.transitions,
              ∀ rule index contextDependent, transition.label = .action rule index contextDependent →
                state.rule = some rule ∧ ∃ entry < network.lexerActions.size, index = some entry) ∧
            List.Forall₂ (Performs network.lexerActions after) network.enactments plan.deeds ∧
            (∀ first ∈ network.enactments.zip plan.deeds, ∀ second ∈ network.enactments.zip plan.deeds,
              first.1.label.actionIndex? = second.1.label.actionIndex? ↔ first.2.2 = second.2.2) ∧
            (∀ entry < network.lexerActions.size, ∃ id state, network.state? id = some state ∧
              ∃ transition ∈ state.transitions, transition.label.actionIndex? = some entry) ∧
            (∀ item ∈ grammar.items, ∀ declared, plan.errand? item = some (.code declared) →
              ∃ number, (declared = none ∨ declared = some number) ∧
                (item, .custom item.site.rule number) ∈ plan.deeds) ∧
            (plan.deeds.filterMap fun deed => deed.2.number?).Nodup
    | _, _ => True := by
  split
  · rename_i grammar lexer built
    intro plan
    split
    · trivial
    rename_i network after ends
    obtain ⟨rfl, table, ledger⟩ := Plan.ledger_of_run rfl ends
    rw [table]
    exact ⟨ledger.once, fun _ _ found _ leaves _ _ _ labelled => ledger.indexed found leaves labelled, ledger.runs,
      fun _ member _ other => ledger.index_eq_iff member other, fun _ bound => ledger.exists_transition bound,
      fun _ listed _ runs => Plan.mem_deeds_of_code listed runs,
      Plan.nodup_numbers lexer (Draft.build_eq_grammar built).2.2⟩
  · trivial

-- `A : 'a' {..} -> skip, setText(x) ; B : 'b' -> skip ;`: both rules share the index of `skip`, and the code of the
-- command is numbered after the declared one.
set_option maxRecDepth 100000 in
example :
    (match Draft.build {
        kind := .lexer
        name := "L"
        rules := [
          { name := "A"
            alternatives := [{
              elements := [⟨.literal "'a'", none⟩, ⟨.action "a()" none, none⟩]
              commands := [{ name := "skip" }, { name := "setText", argument := some "x" }] }] },
          { name := "B"
            alternatives := [{ elements := [⟨.literal "'b'", none⟩], commands := [{ name := "skip" }] }] }] } with
      | .error _ => none
      | .ok grammar =>
          let templates := Templates.ofCommands [("setText", ⟨"text(<arg>)", true⟩)]
          match Plan.run { grammar, kind := .lexer, templates } {} with
          | .error _ _ => none
          | .ok network _ => some (network.lexerActions.toList, network.liveStates.flatMap fun entry =>
              entry.2.transitions.filterMap fun transition =>
                match transition.label with
                | .action _ index _ => index
                | _ => none)) =
    some ([.custom 0 0, .skip, .custom 0 1], [0, 1, 2, 1]) := by
  decide +kernel

end GrammarNetwork
