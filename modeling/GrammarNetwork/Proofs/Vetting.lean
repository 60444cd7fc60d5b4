import GrammarNetwork.Construction.Complete
import GrammarNetwork.Proofs.Growth
import GrammarNetwork.Proofs.Places

/-! Vetting: every step of a construction checks the commands of what it builds against those before them in the rule,
each once and in the order of the text. It reports no other conflicts of commands, it leaves the tables of a network
alone that are filled before the rules, and it remembers states only for what it builds. -/

namespace GrammarNetwork

/-- The problems of a command that has been given before in the rule, or contradicts one that has. -/
def Problem.isConflict : Problem → Bool
  | .duplicateCommand | .incompatibleCommands => true
  | _ => false

/-- The conflicts of commands that have been reported. -/
def Journal.conflicts (journal : Journal) : List Diagnostic :=
  journal.diagnostics.filter fun diagnostic => diagnostic.problem.isConflict

@[simp] theorem Journal.conflicts_note (journal : Journal) (note : Note) :
    (journal.note note).conflicts = journal.conflicts := by
  simp [Journal.conflicts, Journal.diagnostics_note]

theorem Journal.conflicts_report (journal : Journal) (diagnostic : Diagnostic) :
    (journal.report diagnostic).conflicts =
      journal.conflicts ++ if diagnostic.problem.isConflict then [diagnostic] else [] := by
  cases conflict : diagnostic.problem.isConflict <;>
    simp [Journal.conflicts, Journal.diagnostics_report, conflict]

mutual

/-- The commands inside the element, in the order of the text. -/
def Element.commands : Element → List Command
  | ⟨.block ⟨alternatives, _⟩, _⟩ => alternativeCommands alternatives
  | _ => []

def listCommands : List Element → List Command
  | [] => []
  | first :: rest => first.commands ++ listCommands rest

def alternativeCommands : List Alternative → List Command
  | [] => []
  | ⟨elements, commands⟩ :: rest => listCommands elements ++ commands ++ alternativeCommands rest

end

/-- The commands of the rule in all its alternatives, nested ones included. -/
def Rule.commands (rule : Rule) : List Command :=
  alternativeCommands rule.alternatives

/-- What is reported of a command in this file that comes after those with the names in `used`. -/
def commandReports (file : String) (used : List String) (command : Command) : List Diagnostic :=
  (commandConflicts used command.name).map fun conflict => ⟨conflict.1, file, command.position, conflict.2⟩

/-- What is reported of commands one after the other that come after those with the names in `used`. -/
def conflictReports (file : String) (used : List String) : List Command → List Diagnostic
  | [] => []
  | command :: rest => commandReports file used command ++ conflictReports file (used ++ [command.name]) rest

theorem conflictReports_append (file : String) (first second : List Command) : ∀ (used : List String),
    conflictReports file used (first ++ second) =
      conflictReports file used first ++ conflictReports file (used ++ first.map Command.name) second := by
  induction first with
  | nil =>
      intro used
      rw [List.map_nil, List.append_nil]
      rfl
  | cons command rest ih =>
      intro used
      rw [List.cons_append, conflictReports, conflictReports, ih, List.map_cons, List.append_assoc, List.append_assoc,
        List.singleton_append]

/-- What is reported of the commands in the rule, which are checked from the first on. -/
def Rule.conflicts (file : String) (rule : Rule) : List Diagnostic :=
  conflictReports file [] rule.commands

/-- The tables of the modes, of the token types and of the actions are the same, and no number is given to a state
again. -/
structure Network.SameTables (before after : Network) : Prop where
  modes : after.modeStarts = before.modeStarts
  actions : after.lexerActions = before.lexerActions
  types : after.ruleTokenTypes = before.ruleTokenTypes
  size : before.nextId ≤ after.nextId

namespace Network.SameTables

variable {before middle after : Network}

theorem refl (network : Network) : network.SameTables network :=
  ⟨rfl, rfl, rfl, Nat.le_refl _⟩

theorem trans (first : before.SameTables middle) (second : middle.SameTables after) : before.SameTables after where
  modes := second.modes.trans first.modes
  actions := second.actions.trans first.actions
  types := second.types.trans first.types
  size := Nat.le_trans first.size second.size

theorem defineDecision (network : Network) (id : StateId) : network.SameTables (network.defineDecision id) := by
  unfold Network.defineDecision
  split
  · exact ⟨rfl, rfl, rfl, by simp⟩
  · exact .refl network

theorem stripTail (network : Network) (id : StateId) : network.SameTables (network.stripTail id) := by
  obtain same | ⟨behind, exit, same⟩ : network.stripTail id = network ∨
      ∃ behind exit, network.stripTail id = (network.redirectFirst id exit).removeState behind := by
    unfold Network.stripTail
    cases network.onlyTransition? id with
    | none => exact Or.inl rfl
    | some transition =>
        cases only : network.onlyTransition? transition.next with
        | none => simp only [only, true_or]
        | some tail =>
            obtain ⟨target, label⟩ := tail
            simp only [only]
            cases label with
            | action => exact Or.inl rfl
            | _ => exact (ite_eq_or_eq _ _ _).symm.imp_right fun stripped => ⟨_, _, stripped⟩
  · rw [same]
    exact .refl network
  · rw [same]
    exact ⟨rfl, rfl, rfl, by simp [Network.redirectFirst]⟩

theorem stripTailsFrom (network : Network) (rule : Option Nat) (remaining : StateSet) (stack : List StateId) :
    network.SameTables (network.stripTailsFrom rule remaining stack) := by
  fun_induction Network.stripTailsFrom network rule remaining stack with
  | case1 => exact .refl _
  | case2 network remaining stack id rest found stripped targets ih => exact (stripTail network id).trans ih

theorem stripTails (network : Network) (start : StateId) : network.SameTables (network.stripTails start) := by
  unfold Network.stripTails
  split
  · exact stripTailsFrom network _ _ _
  · exact .refl network

end Network.SameTables

/-- The construction after these commands have been checked, with states for these owners. -/
structure Vetted (plan : Plan) (commands : List Command) (before after : Construction)
    (owners : List Owner := []) : Prop where
  tables : before.network.SameTables after.network
  used : after.usedCommands = before.usedCommands ++ commands.map Command.name
  conflicts : after.journal.conflicts =
    before.journal.conflicts ++ conflictReports plan.grammar.fileName before.usedCommands commands
  marks : Remembers owners before after

namespace Vetted

variable {plan : Plan} {before middle after : Construction}

/-- No command has been checked. -/
theorem of_same {owners : List Owner} (tables : before.network.SameTables after.network)
    (used : after.usedCommands = before.usedCommands) (conflicts : after.journal.conflicts = before.journal.conflicts)
    (marks : Remembers owners before after) : Vetted plan [] before after owners :=
  ⟨tables, used.trans (List.append_nil _).symm, conflicts.trans (List.append_nil _).symm, marks⟩

theorem refl (construction : Construction) : Vetted plan [] construction construction :=
  .of_same (.refl _) rfl rfl (.of_same rfl rfl)

theorem trans {commands more : List Command} {owners others : List Owner}
    (first : Vetted plan commands before middle owners) (second : Vetted plan more middle after others) :
    Vetted plan (commands ++ more) before after (owners ++ others) where
  tables := first.tables.trans second.tables
  used := by rw [second.used, first.used, List.map_append, List.append_assoc]
  conflicts := by rw [second.conflicts, first.conflicts, first.used, conflictReports_append, List.append_assoc]
  marks := first.marks.trans second.marks

end Vetted

namespace Build

variable {α β : Type} {plan : Plan}

/-- The step checks these commands, unless it fails, and remembers states for these owners. -/
def Vets (plan : Plan) (commands : List Command) (step : Build α) (owners : List Owner := []) : Prop :=
  ∀ before : Construction, Meets step before (fun _ after => Vetted plan commands before after owners) fun _ => True

section Combinators

theorem Vets.bind {step : Build α} {next : α → Build β} {commands more : List Command} {owners others : List Owner}
    (first : Vets plan commands step owners) (second : ∀ value, Vets plan more (next value) others) :
    Vets plan (commands ++ more) (step >>= next) (owners ++ others) := by
  intro before
  rw [meets_bind]
  refine (first before).weaken (fun value middle vetted => ?_) fun _ => id
  exact (second value middle).weaken (fun _ _ later => vetted.trans later) fun _ => id

/-- A step without commands comes first. -/
theorem Vets.then {step : Build α} {next : α → Build β} {commands : List Command} {owners : List Owner}
    (first : Vets plan [] step) (second : ∀ value, Vets plan commands (next value) owners) :
    Vets plan commands (step >>= next) owners :=
  first.bind second

/-- A step without commands comes last. -/
theorem Vets.first {step : Build α} {next : α → Build β} {commands : List Command} {owners : List Owner}
    (first : Vets plan commands step owners) (second : ∀ value, Vets plan [] (next value)) :
    Vets plan commands (step >>= next) owners := by
  rw [← List.append_nil commands, ← List.append_nil owners]
  exact first.bind second

/-- There may be an owner without a state. -/
theorem Vets.unmarked {step : Build α} {commands : List Command} {owner : Owner} {owners : List Owner}
    (vets : Vets plan commands step owners) : Vets plan commands step (owner :: owners) := by
  intro before
  refine (vets before).weaken (fun _ after vetted => ?_) fun _ => id
  exact ⟨vetted.tables, vetted.used, vetted.conflicts, vetted.marks.more owner⟩

theorem vets_pure (value : α) : Vets plan [] (pure value) :=
  fun before => .refl before

theorem vets_throw {failure : Failure} {commands : List Command} : Vets plan commands (throw failure : Build α) :=
  fun _ => trivial

theorem vets_fail {cause : Inconsistency} {commands : List Command} : Vets plan commands (fail plan cause : Build α) :=
  fun _ => meets_fail.mpr trivial

theorem vets_get : Vets plan [] get :=
  fun before => .refl before

theorem vets_network : Vets plan [] network :=
  fun before => .refl before

theorem vets_modify {change : Construction → Construction} {owners : List Owner}
    (same : ∀ before : Construction, Vetted plan [] before (change before) owners) :
    Vets plan [] (modify change) owners :=
  fun before => same before

theorem vets_modifyNetwork {change : Network → Network}
    (same : ∀ network : Network, network.SameTables (change network)) : Vets plan [] (modifyNetwork change) :=
  fun before => .of_same (same before.network) rfl rfl (.of_same rfl rfl)

theorem vets_note {note : Note} : Vets plan [] (Build.note note) :=
  fun before => .of_same (.refl _) rfl (before.journal.conflicts_note note) (.of_same rfl rfl)

theorem vets_report {problem : Problem} {position : Option Position} {arguments : List String}
    (other : problem.isConflict = false) : Vets plan [] (report plan problem position arguments) := by
  intro before
  refine meets_report.mpr (.of_same (.refl _) rfl ?_ (.of_same rfl rfl))
  rw [Journal.conflicts_report]
  simp [other]

theorem vets_discard {step : Build α} {commands : List Command} (vets : Vets plan commands step) :
    Vets plan commands (discard step) :=
  fun before => meets_discard.mpr (vets before)

theorem vets_forM {items : List α} {step : α → Build Unit} (vets : ∀ item ∈ items, Vets plan [] (step item)) :
    Vets plan [] (items.forM step) := by
  induction items with
  | nil => exact vets_pure ()
  | cons first rest ih =>
      rw [List.forall_mem_cons] at vets
      exact vets.1.then fun _ => ih vets.2

end Combinators

section States

variable {id source target : StateId}

theorem vets_currentRule : Vets plan [] (currentRule plan) := by
  refine vets_get.then fun construction => ?_
  cases construction.rule with
  | none => exact vets_fail
  | some rule => exact vets_pure rule

theorem vets_changeState {change : State → State} : Vets plan [] (changeState id change) := by
  refine vets_network.then fun network => ?_
  split
  · exact vets_modifyNetwork fun _ => ⟨rfl, rfl, rfl, by simp⟩
  · exact vets_throw

theorem vets_newStateIn {rule : Option Nat} {kind : StateKind} : Vets plan [] (newStateIn rule kind) :=
  fun _ => .of_same ⟨rfl, rfl, rfl, by simp⟩ rfl rfl (.of_same rfl rfl)

theorem vets_newState {kind : StateKind} : Vets plan [] (newState kind) :=
  vets_get.then fun _ => vets_newStateIn

theorem vets_addTransition {transition : Transition} : Vets plan [] (addTransition source transition) := by
  refine vets_network.then fun network => ?_
  split
  · exact vets_modifyNetwork fun _ => ⟨rfl, rfl, rfl, by simp [Network.addTransition]⟩
  · exact vets_throw

theorem vets_epsilon : Vets plan [] (epsilon source target) :=
  vets_addTransition

theorem vets_defineDecision : Vets plan [] (defineDecision id) := by
  refine vets_network.then fun network => ?_
  cases network.decisionNumber? id with
  | none => exact vets_throw
  | some decision =>
      refine (vets_modifyNetwork fun network => .defineDecision network id).then fun _ => ?_
      exact vets_note.then fun _ => vets_pure decision

theorem vets_atom {label : Label} : Vets plan [] (atom label) := by
  refine vets_newState.then fun left => vets_newState.then fun right => ?_
  exact vets_addTransition.then fun _ => vets_pure _

theorem vets_ruleStates {index : Nat} : Vets plan [] (ruleStates plan index) := by
  refine vets_network.then fun network => ?_
  split
  · exact vets_pure _
  · exact vets_fail

theorem vets_markElement {site : Site} : Vets plan [] (markElement site id) [.element site] :=
  vets_modify fun before => .of_same (.refl _) rfl rfl (.element before site id)

theorem vets_markCommand {site : Site} : Vets plan [] (markCommand site id) [.command site] :=
  vets_modify fun before => .of_same (.refl _) rfl rfl (.command before site id)

end States

section Composition

theorem vets_join {piece next : Handle} : Vets plan [] (join piece next) := by
  refine vets_network.then fun network => ?_
  split
  · exact vets_modifyNetwork fun _ => ⟨rfl, rfl, rfl, by simp [Network.redirectFirst]⟩
  · exact vets_epsilon

theorem vets_sequence : ∀ {pieces : List Handle}, Vets plan [] (sequence plan pieces)
  | [] => vets_fail
  | [piece] => vets_pure piece
  | _ :: _ :: _ => vets_join.then fun _ => vets_sequence.then fun _ => vets_pure _

theorem vets_rule {index : Nat} {body : Handle} : Vets plan [] (Build.rule plan index body) :=
  vets_ruleStates.then fun _ => vets_epsilon.then fun _ => vets_epsilon.then fun _ => vets_pure _

theorem vets_addAlternative {start exit : StateId} {alternative : Handle} :
    Vets plan [] (addAlternative start exit alternative) :=
  vets_epsilon.then fun _ => vets_epsilon.then fun _ =>
    vets_modifyNetwork fun network => .stripTails network alternative.left

theorem vets_blockFrom {start : StateId} {alternatives : List Handle} :
    Vets plan [] (blockFrom start alternatives) := by
  refine vets_newState.then fun exit => vets_changeState.then fun _ => ?_
  exact (vets_forM fun _ _ => vets_addAlternative).then fun _ => vets_pure _

theorem vets_blockCheck {block : Handle} : Vets plan [] (blockCheck plan block) :=
  vets_currentRule.then fun _ => vets_pure _

theorem vets_optional {block : Handle} {greedy : Bool} : Vets plan [] (optional plan block greedy) := by
  refine vets_blockCheck.then fun check => Vets.then (vets_modify fun before => ?_) fun _ => ?_
  · exact .of_same (.refl _) rfl rfl (.of_same rfl rfl)
  · exact vets_changeState.then fun _ => vets_changeState.then fun _ => vets_pure block

theorem vets_warnWildcard {body : Block} {position : Option Position} {repetition : Repetition} :
    Vets plan [] (warnWildcard plan body position repetition) := by
  unfold warnWildcard
  split
  · exact vets_report rfl
  · exact vets_pure ()

theorem vets_fork {source inside outside : StateId} {greedy : Bool} :
    Vets plan [] (fork source inside outside greedy) := by
  cases greedy <;> exact vets_epsilon.then fun _ => vets_epsilon

theorem vets_addLoopCheck {check : Check} : Vets plan [] (addLoopCheck check) :=
  vets_modify fun _ => .of_same (.refl _) rfl rfl (.of_same rfl rfl)

theorem vets_star {body : Block} {position : Option Position} {block : Handle} {greedy : Bool} :
    Vets plan [] (star plan body position block greedy) := by
  refine vets_blockCheck.then fun _ => vets_addLoopCheck.then fun _ => vets_newState.then fun entry => ?_
  refine vets_changeState.then fun _ => (vets_discard vets_defineDecision).then fun _ => ?_
  refine vets_newState.then fun exit => vets_newState.then fun loopBack => ?_
  refine vets_changeState.then fun _ => vets_changeState.then fun _ => ?_
  have rest : Vets plan [] (do
      fork entry block.left exit greedy
      epsilon block.right loopBack
      epsilon loopBack entry
      return (⟨entry, exit⟩ : Handle)) :=
    vets_fork.then fun _ => vets_epsilon.then fun _ => vets_epsilon.then fun _ => vets_pure _
  cases greedy with
  | true => exact vets_warnWildcard.then fun _ => rest
  | false => exact rest

theorem vets_plus {body : Block} {position : Option Position} {block : Handle} {greedy : Bool} :
    Vets plan [] (plus plan body position block greedy) := by
  refine vets_blockCheck.then fun _ => vets_addLoopCheck.then fun _ => vets_newState.then fun loopBack => ?_
  refine vets_changeState.then fun _ => (vets_discard vets_defineDecision).then fun _ => ?_
  refine vets_newState.then fun exit => vets_changeState.then fun _ => vets_epsilon.then fun _ => ?_
  cases greedy with
  | true => exact vets_warnWildcard.then fun _ => vets_fork.then fun _ => vets_pure _
  | false => exact vets_fork.then fun _ => vets_pure _

theorem vets_block {body : Block} {position : Option Position} {alternatives : List Handle} :
    Vets plan [] (block plan body position alternatives) := by
  cases alternatives with
  | nil => exact vets_fail
  | cons first rest =>
      obtain ⟨choices, suffix⟩ := body
      rcases suffix with _ | ⟨_ | _ | _, greedy⟩
      · simp only [block]
        split
        · exact vets_pure _
        · exact vets_newState.then fun start => (vets_discard vets_defineDecision).then fun _ =>
            vets_blockFrom.then fun _ => vets_pure _
      · exact vets_newState.then fun start => (vets_discard vets_defineDecision).then fun _ =>
          vets_blockFrom.then fun _ => vets_optional.then fun _ => vets_pure _
      · refine vets_newState.then fun start => ?_
        dsimp only
        split
        · exact (vets_discard vets_defineDecision).then fun _ => vets_blockFrom.then fun _ =>
            vets_star.then fun _ => vets_pure _
        · exact vets_blockFrom.then fun _ => vets_star.then fun _ => vets_pure _
      · refine vets_newState.then fun start => ?_
        dsimp only
        split
        · exact (vets_discard vets_defineDecision).then fun _ => vets_blockFrom.then fun _ => vets_plus
        · exact vets_blockFrom.then fun _ => vets_plus

end Composition

section Characters

variable {position : Option Position} {root : String} {set : IntervalSet} {first last : Int}

theorem vets_isCaseInsensitive : Vets plan [] (isCaseInsensitive plan) :=
  vets_get.then fun _ => vets_pure _

theorem vets_reportStrays {range : Unicode.CaseRange} : Vets plan [] (reportStrays plan range position) := by
  unfold reportStrays
  split
  · exact vets_pure ()
  · exact vets_report rfl

theorem vets_rangeTransition {target : StateId} : Vets plan [] (rangeTransition plan target first last position) := by
  refine vets_reportStrays.then fun _ => vets_isCaseInsensitive.then fun ignored => ?_
  split
  · exact vets_pure _
  · exact vets_pure _

theorem vets_rangeEnds? {low high : String} : Vets plan [] (rangeEnds? plan low high position) := by
  simp only [rangeEnds?]
  repeat' first
    | exact vets_pure _
    | exact vets_report rfl
    | refine Vets.then ?_ fun _ => ?_
    | split

theorem vets_addExactRange {previous : Option RangeStatus} :
    Vets plan [] (addExactRange plan root position set first last previous) := by
  simp only [addExactRange]
  repeat' first
    | exact vets_pure _
    | exact vets_report rfl
    | exact vets_reportStrays
    | refine Vets.then ?_ fun _ => ?_
    | split

theorem vets_addRange : Vets plan [] (addRange plan root position set first last) := by
  refine vets_isCaseInsensitive.then fun ignored => ?_
  cases ignored with
  | false => exact vets_addExactRange.then fun _ => vets_pure _
  | true =>
      refine vets_reportStrays.then fun _ => ?_
      dsimp only
      split
      · exact vets_addExactRange.then fun _ => vets_pure _
      · exact vets_addExactRange.then fun _ => vets_addExactRange.then fun _ => vets_pure _

theorem vets_applyPending {pending : Pending} : Vets plan [] (applyPending plan root position set pending) := by
  cases pending with
  | nothing => exact vets_pure _
  | codePoint code opens => exact vets_addRange
  | property more => exact vets_pure _

theorem vets_takeCodePoint {pending : Pending} {code : Int} :
    Vets plan [] (takeCodePoint plan root position set pending code) := by
  cases pending with
  | nothing => exact vets_applyPending.then fun _ => vets_pure _
  | property more => exact vets_applyPending.then fun _ => vets_pure _
  | codePoint first opens =>
      cases opens with
      | false => exact vets_applyPending.then fun _ => vets_pure _
      | true =>
          simp only [takeCodePoint]
          split
          · exact (vets_report rfl).then fun _ => vets_addRange.then fun _ => vets_pure _
          · exact vets_addRange.then fun _ => vets_pure _

theorem vets_scanTokens (tokens : List CharSetToken) : ∀ {atStart : Bool} {set : IntervalSet} {pending : Pending},
    Vets plan [] (scanTokens plan root position atStart tokens set pending) := by
  induction tokens with
  | nil =>
      intro atStart set pending
      exact vets_pure _
  | cons token rest ih =>
      intro atStart set pending
      unfold scanTokens
      repeat' first
        | exact vets_pure _
        | exact vets_report rfl
        | exact vets_takeCodePoint
        | exact vets_applyPending
        | exact ih
        | refine Vets.then ?_ fun _ => ?_
        | split

theorem vets_charSet {text : String} : Vets plan [] (charSet plan text position) := by
  refine (vets_scanTokens _).then fun scanned => ?_
  cases scanned with
  | none => exact vets_pure _
  | some last =>
      refine vets_applyPending.then fun set => ?_
      split
      · exact (vets_report rfl).then fun _ => vets_pure _
      · exact vets_pure _

theorem vets_addSetItem {item : Element} : Vets plan [] (addSetItem plan root position set item) := by
  obtain ⟨form, place⟩ := item
  cases form with
  | range first last =>
      refine vets_rangeEnds?.then fun ends => ?_
      cases ends with
      | none => exact vets_pure _
      | some ends => exact vets_addRange
  | charSet text => exact vets_charSet.then fun _ => vets_pure _
  | literal text =>
      simp only [addSetItem]
      split
      · exact vets_addRange
      · exact (vets_report rfl).then fun _ => vets_pure _
  | token name => exact (vets_report rfl).then fun _ => vets_pure _
  | _ => exact vets_fail

theorem vets_addSetItems (items : List Element) : ∀ {set : IntervalSet},
    Vets plan [] (addSetItems plan root position set items) := by
  induction items with
  | nil =>
      intro set
      exact vets_pure _
  | cons item rest ih =>
      intro set
      exact vets_addSetItem.then fun _ => ih

end Characters

section Actions

theorem vets_argumentValue? {space : NameSpace} {name : String} : Vets plan [] (argumentValue? plan space name) := by
  unfold argumentValue?
  cases space.constant? name with
  | some value => exact vets_pure _
  | none =>
      dsimp only
      split
      · exact (vets_report (by cases space <;> rfl)).then fun _ => vets_pure _
      · cases (space.defined? plan.grammar name).or (int32? name) with
        | some value => exact vets_pure _
        | none => exact (vets_report (by cases space <;> rfl)).then fun _ => vets_pure _

theorem vets_builtinAction? {command : Command} {builtin : Builtin} :
    Vets plan [] (builtinAction? plan command builtin) := by
  obtain ⟨name, argument, position⟩ := command
  cases builtin with
  | plain action =>
      cases argument with
      | none => exact vets_pure _
      | some argument => exact (vets_report rfl).then fun _ => vets_pure _
  | named space action =>
      cases argument with
      | none => exact (vets_report rfl).then fun _ => vets_pure _
      | some argument => exact vets_argumentValue?.then fun _ => vets_pure _

theorem vets_actionIndex {action : LexerAction} : Vets plan [] (actionIndex action) := by
  refine vets_get.then fun construction => ?_
  dsimp only
  cases construction.actions.idxOf? action with
  | some index => exact vets_pure index
  | none =>
      refine Vets.then (vets_modify fun before => ?_) fun _ => vets_pure _
      exact .of_same (.refl _) rfl rfl (.of_same rfl rfl)

theorem vets_actionLeaf {action : LexerAction} : Vets plan [] (actionLeaf plan action) :=
  vets_currentRule.then fun _ => vets_actionIndex.then fun _ => vets_atom

theorem vets_newActionNumber : Vets plan [] newActionNumber := by
  refine vets_get.then fun construction => Vets.then (vets_modify fun before => ?_) fun _ => vets_pure _
  exact .of_same (.refl _) rfl rfl (.of_same rfl rfl)

theorem vets_inlineAction {code : String} : Vets plan [] (inlineAction plan code) := by
  unfold inlineAction
  split
  · exact vets_atom
  · exact vets_currentRule.then fun _ => vets_newActionNumber.then fun _ => vets_actionLeaf

/-- A command that is wrong matches nothing. -/
theorem vets_silent {problem : Problem} {position : Option Position} {arguments : List String}
    (other : problem.isConflict = false) : Vets plan [] (do
      report plan problem position arguments
      return (← atom .epsilon, (none : Option StateId))) :=
  (vets_report other).then fun _ => vets_atom.then fun _ => vets_pure _

theorem vets_templateCommand {command : Command} {template : Template} :
    Vets plan [] (templateCommand plan command template) := by
  unfold templateCommand
  split
  · exact vets_silent rfl
  · exact vets_silent rfl
  · exact vets_inlineAction.then fun _ => vets_pure _

end Actions

section Commands

variable {before : Construction}

theorem meets_reports {bad : Failure → Prop} {position : Option Position} (found : List (Problem × List String)) :
    (∀ conflict ∈ found, conflict.1.isConflict = true) → ∀ {before : Construction},
    Meets (found.forM fun conflict => report plan conflict.1 position conflict.2) before
      (fun _ after => ∃ journal : Journal, after = { before with journal } ∧ journal.conflicts =
        before.journal.conflicts ++ found.map fun conflict =>
          ⟨conflict.1, plan.grammar.fileName, position, conflict.2⟩) bad := by
  induction found with
  | nil =>
      intro _ before
      exact ⟨before.journal, rfl, (List.append_nil _).symm⟩
  | cons first rest ih =>
      intro all before
      rw [List.forall_mem_cons] at all
      simp only [List.forM, meets_bind, meets_report]
      refine (ih all.2).weaken ?_ fun _ => id
      rintro _ _ ⟨journal, rfl, conflicts⟩
      refine ⟨journal, rfl, ?_⟩
      rw [conflicts, Journal.conflicts_report, all.1, if_pos rfl, List.append_assoc]
      rfl

theorem isConflict_of_mem_commandConflicts {used : List String} {command : String} {conflict : Problem × List String}
    (listed : conflict ∈ commandConflicts used command) : conflict.1.isConflict = true := by
  unfold commandConflicts at listed
  split at listed
  · cases listed
  · rcases List.mem_append.mp listed with again | against
    · split at again
      · cases List.mem_singleton.mp again
        rfl
      · cases again
    · split at against
      · cases List.mem_singleton.mp against
        rfl
      · cases against

/-- The command is checked against those before it, and then is one of them. -/
theorem vets_lexerCommand {command : Command} : Vets plan [command] (lexerCommand plan command) := by
  intro before
  simp only [lexerCommand, meets_bind, meets_get, meets_modify]
  refine (meets_reports _ fun _ => isConflict_of_mem_commandConflicts).weaken ?_ fun _ => id
  rintro _ _ ⟨journal, rfl, conflicts⟩
  have checked : Vetted plan [command] before
      { before with journal, usedCommands := before.usedCommands ++ [command.name] } := by
    refine ⟨.refl _, rfl, ?_, .of_same rfl rfl⟩
    rw [conflicts, conflictReports, conflictReports, List.append_nil]
    rfl
  have finish : ∀ {step : Build (Handle × Option StateId)}, Vets plan [] step →
      Meets step { before with journal, usedCommands := before.usedCommands ++ [command.name] }
        (fun _ after => Vetted plan [command] before after) fun _ => True := fun vets =>
    (vets _).weaken (fun _ _ later => checked.trans later) fun _ => id
  refine finish ?_
  cases builtin? command.name with
  | some builtin =>
      refine vets_builtinAction?.then fun action => ?_
      cases action with
      | some action => exact vets_actionLeaf.then fun _ => vets_pure _
      | none => exact vets_atom.then fun _ => vets_pure _
  | none =>
      cases plan.templates (templateName command.name) with
      | some template => exact vets_templateCommand
      | none => exact vets_silent rfl

theorem vets_command {command : Command} : Vets plan [command] (Build.command plan command) := by
  unfold Build.command
  split
  · exact vets_throw
  · exact vets_lexerCommand

/-- A state is remembered for a command only if it has one of its own. -/
theorem vets_commands {site : Site} {alternative : Nat} (written : List Command) : ∀ {index : Nat},
    Vets plan written (commands plan site alternative index written)
      ((commandItems site alternative index written).map Item.owner) := by
  induction written with
  | nil =>
      intro index
      exact vets_pure _
  | cons first rest ih =>
      intro index
      refine vets_command.bind fun built => ?_
      obtain ⟨handle, mark⟩ := built
      cases mark with
      | some state => exact vets_markCommand.bind fun _ => ih.first fun _ => vets_pure _
      | none => exact (ih.first fun _ => vets_pure _).unmarked

theorem vets_attachCommands {body behind : Handle} : Vets plan [] (attachCommands plan body behind) := by
  unfold attachCommands
  split
  · exact vets_throw
  · exact vets_epsilon.then fun _ => vets_pure _

theorem vets_assemble {site : Site} {alternative : Nat} {elements : List Handle} {written : List Command} :
    Vets plan written (assemble plan site alternative elements written)
      ((commandItems site alternative 0 written).map Item.owner) := by
  have behind : ∀ body : Handle, Vets plan written (do
      if written.isEmpty then return body
      else do
        let handles ← commands plan site alternative 0 written
        let behind ← sequence plan handles
        attachCommands plan body behind) ((commandItems site alternative 0 written).map Item.owner) := by
    intro body
    cases written with
    | nil => exact vets_pure body
    | cons first rest =>
        exact (vets_commands _).first fun _ => vets_sequence.then fun _ => vets_attachCommands
  simp only [assemble]
  split
  · exact vets_atom.then behind
  · exact vets_sequence.then behind

end Commands

section Elements

variable {position : Option Position}

theorem vets_ruleLeaf {name : String} {precedence : Option Int} :
    Vets plan [] (ruleLeaf plan name precedence position) := by
  unfold ruleLeaf
  split
  · exact (vets_report rfl).then fun _ => vets_throw
  · exact vets_ruleStates.then fun _ => vets_newState.then fun left => vets_newState.then fun right =>
      vets_addTransition.then fun _ => vets_pure _

theorem vets_tokenLeaf {name : String} : Vets plan [] (tokenLeaf plan name position) := by
  unfold tokenLeaf
  split
  · exact vets_atom
  · split
    · exact vets_atom
    · exact vets_ruleLeaf

theorem vets_characterChain : ∀ {text : List Char} {start : StateId},
    Vets plan [] (characterChain plan position start text)
  | [], _ => vets_pure _
  | _ :: _, _ => vets_newState.then fun _ => vets_rangeTransition.then fun _ => vets_addTransition.then fun _ =>
      vets_characterChain

theorem vets_literalLeaf {text : String} : Vets plan [] (literalLeaf plan text position) := by
  unfold literalLeaf
  split
  · exact vets_atom
  · refine vets_newState.then fun left => ?_
    split
    · exact (vets_report rfl).then fun _ => vets_pure _
    · split
      · exact (vets_report rfl).then fun _ => vets_pure _
      · exact vets_characterChain.then fun _ => vets_pure _

theorem vets_charSetLeaf {text : String} : Vets plan [] (charSetLeaf plan text position) := by
  unfold charSetLeaf
  split
  · exact vets_throw
  · exact vets_charSet.then fun _ => vets_atom

theorem vets_rangeLeaf {first last : String} : Vets plan [] (rangeLeaf plan first last position) := by
  unfold rangeLeaf
  split
  · exact (vets_report rfl).then fun _ => vets_atom
  · refine vets_newState.then fun left => vets_newState.then fun right => vets_rangeEnds?.then fun ends => ?_
    cases ends with
    | some ends => exact vets_rangeTransition.then fun _ => vets_addTransition.then fun _ => vets_pure _
    | none => exact vets_pure _

theorem vets_setLeaf {items : List Element} {inverted : Bool} :
    Vets plan [] (setLeaf plan items inverted position) := by
  unfold setLeaf
  split
  · exact vets_atom
  · exact (vets_addSetItems items).then fun _ => vets_atom

theorem vets_actionElement {index : Option Nat} : Vets plan [] (actionElement plan index) := by
  refine vets_currentRule.then fun rule => ?_
  split
  · exact vets_atom
  · cases index with
    | some index => exact vets_actionLeaf
    | none => exact vets_newActionNumber.then fun _ => vets_actionLeaf

theorem vets_predicateLeaf {code : String} {index : Nat} {precedence : Option Int} :
    Vets plan [] (predicateLeaf plan code index precedence) := by
  cases precedence with
  | some level => exact vets_atom
  | none => exact vets_currentRule.then fun _ => vets_atom

/-- A leaf is remembered by the element that it is built for. -/
theorem vets_leaf {leaf : Build Handle} (vets : Vets plan [] leaf) : Vets plan [] (do
    let handle ← leaf
    return (handle, handle.left)) :=
  vets.then fun _ => vets_pure _

mutual

theorem vets_element (site : Site) : ∀ element : Element,
    Vets plan element.commands (Build.element plan site element) ((innerPlaces site element).map Item.owner)
  | ⟨.block ⟨alternatives, _⟩, _⟩ => (vets_alternativeList site 0 alternatives).first fun _ => vets_block
  | ⟨.token _, _⟩ => vets_leaf vets_tokenLeaf
  | ⟨.rule _ _, _⟩ => vets_leaf vets_ruleLeaf
  | ⟨.literal _, _⟩ => vets_leaf vets_literalLeaf
  | ⟨.charSet _, _⟩ => vets_leaf vets_charSetLeaf
  | ⟨.range _ _, _⟩ => vets_leaf vets_rangeLeaf
  | ⟨.set _ _, _⟩ => vets_leaf vets_setLeaf
  | ⟨.wildcard, _⟩ => vets_leaf vets_atom
  | ⟨.action _ _, _⟩ => vets_leaf vets_actionElement
  | ⟨.predicate _ _ _, _⟩ => vets_leaf vets_predicateLeaf

theorem vets_elementList (site : Site) (alternative : Nat) : ∀ (index : Nat) (elements : List Element),
    Vets plan (listCommands elements) (elementList plan site alternative index elements)
      ((listPlaces site alternative index elements).map Item.owner)
  | _, [] => vets_pure _
  | index, first :: rest => by
      rw [listPlaces, List.map_append]
      exact (vets_element (site.child alternative index) first).bind fun _ => vets_markElement.bind fun _ =>
        (vets_elementList site alternative (index + 1) rest).first fun _ => vets_pure _

theorem vets_alternativeList (site : Site) : ∀ (index : Nat) (alternatives : List Alternative),
    Vets plan (alternativeCommands alternatives) (alternativeList plan site index alternatives)
      ((alternativePlaces site index alternatives).map Item.owner)
  | _, [] => vets_pure _
  | index, ⟨elements, written⟩ :: rest => by
      rw [alternativeCommands, List.append_assoc, alternativePlaces, List.map_append, List.map_append]
      exact (vets_elementList site index 0 elements).bind fun _ => vets_assemble.bind fun _ =>
        (vets_alternativeList site (index + 1) rest).first fun _ => vets_pure _

end

end Elements

section Rules

theorem vets_newRule {written : Rule} {index : Nat} : Vets plan [] (newRule written index) := by
  refine vets_network.then fun network => (vets_discard vets_newStateIn).then fun _ => ?_
  exact vets_newStateIn.then fun stop => vets_modifyNetwork fun _ => ⟨rfl, rfl, rfl, Nat.le_refl _⟩

theorem vets_newRules : Vets plan [] (newRules plan) :=
  vets_forM fun _ _ => vets_newRule

theorem vets_ruleBlock {site : Site} {body : Block} :
    Vets plan (alternativeCommands body.alternatives) (ruleBlock plan site body)
      ((alternativePlaces site 0 body.alternatives).map Item.owner) :=
  (vets_alternativeList site 0 body.alternatives).first fun _ => vets_block.then fun _ => vets_pure _

theorem vets_linkMode {mode : String} {index : Nat} : Vets plan [] (linkMode plan mode index) := by
  refine vets_network.then fun network => ?_
  cases network.modeStarts[index]? with
  | none => exact vets_pure ()
  | some start =>
      refine vets_forM fun entry _ => ?_
      split
      · refine vets_network.then fun network => ?_
        cases network.ruleStarts[entry.2]? with
        | none => exact vets_pure ()
        | some ruleStart => exact vets_epsilon
      · exact vets_pure ()

theorem vets_checkLoop {check : Check} : Vets plan [] (checkLoop plan check) := by
  refine vets_network.then fun network => ?_
  dsimp only
  split
  · exact vets_pure ()
  · rename_i rule _
    have other : (if rule.leftRecursive then Problem.emptyLeftRecursion else .emptyLoop).isConflict = false := by
      split <;> rfl
    repeat' first
      | exact vets_pure ()
      | exact vets_report other
      | exact vets_report rfl
      | refine Vets.then ?_ fun _ => ?_
      | split

theorem vets_checkLoops : Vets plan [] (checkLoops plan) := by
  refine vets_get.then fun construction => Vets.then (vets_modify fun before => ?_) fun _ => ?_
  · exact .of_same (.refl _) rfl rfl (.of_same rfl rfl)
  · exact vets_forM fun _ _ => vets_checkLoop

end Rules

end Build

/-- The construction after these rules have been built, each with its own commands checked. -/
structure Reviewed (plan : Plan) (written : List Rule) (before after : Construction) : Prop where
  tables : before.network.SameTables after.network
  unused : after.usedCommands = []
  conflicts : after.journal.conflicts =
    before.journal.conflicts ++ written.flatMap fun rule => rule.conflicts plan.grammar.fileName

namespace Build

variable {plan : Plan}

/-- The names of the commands in a rule are forgotten at its end. -/
theorem meets_reviewedRule (lexer : plan.kind = .lexer) (written : Rule) (index : Nat) {before : Construction}
    (unused : before.usedCommands = []) :
    Meets (wholeRule plan written index) before (fun _ after => Reviewed plan [written] before after)
      fun _ => True := by
  simp only [wholeRule, finishRule, if_pos lexer, meets_bind, meets_note, meets_setRule, meets_discard, meets_modify]
  refine (vets_ruleBlock _).weaken (fun body middle vetted => ?_) fun _ => id
  refine (vets_rule _).weaken (fun _ after linked => ?_) fun _ => id
  refine ⟨vetted.tables.trans linked.tables, linked.used, ?_⟩
  rw [linked.conflicts, conflictReports, List.append_nil, vetted.conflicts, Journal.conflicts_note, unused,
    List.flatMap_singleton]
  rfl

theorem meets_reviewedRules (lexer : plan.kind = .lexer) (written : List (Rule × Nat)) :
    ∀ {before : Construction}, before.usedCommands = [] →
    Meets (written.forM fun entry => wholeRule plan entry.1 entry.2) before
      (fun _ after => Reviewed plan (written.map Prod.fst) before after) fun _ => True := by
  induction written with
  | nil =>
      intro before unused
      exact ⟨.refl _, unused, (List.append_nil _).symm⟩
  | cons first rest ih =>
      intro before unused
      simp only [List.forM, meets_bind]
      refine (meets_reviewedRule lexer first.1 first.2 unused).weaken (fun _ middle reviewed => ?_) fun _ => id
      refine (ih reviewed.unused).weaken (fun _ after later => ?_) fun _ => id
      refine ⟨reviewed.tables.trans later.tables, later.unused, ?_⟩
      rw [later.conflicts, reviewed.conflicts, List.append_assoc, ← List.flatMap_append]
      rfl

theorem meets_reviewedGrammar (lexer : plan.kind = .lexer) {before : Construction}
    (unused : before.usedCommands = []) :
    Meets (rules plan) before (fun _ after => Reviewed plan plan.grammar.rules.toList before after)
      fun _ => True := by
  have reviewed := meets_reviewedRules lexer plan.grammar.rules.toList.zipIdx unused
  rwa [List.zipIdx_map_fst] at reviewed

end Build

end GrammarNetwork
