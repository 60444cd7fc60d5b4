import GrammarNetwork.Proofs.Drafts

/-! Errands: what the elements and the commands of a lexer are to run, and the action that each of them comes to. In
the grammar of a draft no two of them that run code come to the same number. -/

namespace GrammarNetwork

/-- An element or a command of a grammar and its place. -/
inductive Item where
  | element (site : Site) (element : Element)
  | command (site : Site) (command : Command)

def Item.site : Item → Site
  | .element site _ => site
  | .command site _ => site

/-- The commands of alternative `alternative` in the block at `site`, from the one with number `index`. -/
def commandItems (site : Site) (alternative : Nat) : Nat → List Command → List Item
  | _, [] => []
  | index, first :: rest =>
      .command (site.child alternative index) first :: commandItems site alternative (index + 1) rest

mutual

/-- The element at `site` and all that is inside it, in the order of the text. The items of a set count as its only
alternative. -/
def elementItems (site : Site) : Element → List Item
  | ⟨.set items inverted, position⟩ =>
      .element site ⟨.set items inverted, position⟩ :: listItems site 0 0 items
  | ⟨.block ⟨alternatives, suffix⟩, position⟩ =>
      .element site ⟨.block ⟨alternatives, suffix⟩, position⟩ :: alternativeItems site 0 alternatives
  | element => [.element site element]

def listItems (site : Site) (alternative : Nat) : Nat → List Element → List Item
  | _, [] => []
  | index, first :: rest =>
      elementItems (site.child alternative index) first ++ listItems site alternative (index + 1) rest

def alternativeItems (site : Site) : Nat → List Alternative → List Item
  | _, [] => []
  | index, ⟨elements, written⟩ :: rest =>
      listItems site index 0 elements ++
        (commandItems site index 0 written ++ alternativeItems site (index + 1) rest)

end

/-- The elements and commands of the rules, the first of which has number `index`. -/
def ruleItems : Nat → List Rule → List Item
  | _, [] => []
  | index, rule :: rest => alternativeItems ⟨index, []⟩ 0 rule.alternatives ++ ruleItems (index + 1) rest

/-- The elements and commands of a grammar, in the order of the text. -/
def Grammar.items (grammar : Grammar) : List Item :=
  ruleItems 0 grammar.rules.toList

/-- What an element or a command is to run. -/
inductive Errand where
  /-- An action of every lexer, which is the same wherever it is run. -/
  | common (action : LexerAction)
  /-- Code, with the number that it was declared with, if any. -/
  | code (declared : Option Nat)
deriving DecidableEq, Repr

/-- An errand and the element or the command that has it. -/
abbrev Task := Item × Errand

/-- An action and the element or the command that it is run for. -/
abbrev Deed := Item × LexerAction

/-- The value of an argument: a constant, a name of the grammar, or a number. -/
def NameSpace.value? (space : NameSpace) (grammar : Grammar) (name : String) : Option Int :=
  match space.constant? name with
  | some value => some value
  | none => if (commonConstant? name).isSome then none else (space.defined? grammar name).or (int32? name)

/-- The action that a built-in command with this argument stands for. -/
def Builtin.action? (grammar : Grammar) : Builtin → Option String → Option LexerAction
  | .plain action, none => some action
  | .plain _, some _ => none
  | .named _ _, none => none
  | .named space action, some argument => (space.value? grammar argument).map action

/-- What a command is to run that is rendered from a template. It has an argument just when the template takes one, and
blank code is not run. -/
def Template.errand? (template : Template) (argument : Option String) : Option Errand :=
  if template.takesArgument = argument.isSome ∧ ¬(template.render argument).toList.all Unicode.isWhitespace then
    some (.code none)
  else
    none

namespace Plan

variable (plan : Plan)

def commandErrand? (command : Command) : Option Errand :=
  match builtin? command.name with
  | some builtin => (builtin.action? plan.grammar command.argument).map .common
  | none => (plan.templates (templateName command.name)).bind fun template => template.errand? command.argument

def errand? : Item → Option Errand
  | .element _ ⟨.action _ declared, _⟩ => some (.code declared)
  | .element _ _ => none
  | .command _ command => plan.commandErrand? command

/-- The errands among these elements and commands. -/
def tasks (items : List Item) : List Task :=
  items.filterMap fun item => (plan.errand? item).map (item, ·)

theorem tasks_singleton (item : Item) : plan.tasks [item] = ((plan.errand? item).map (item, ·)).toList := by
  cases found : plan.errand? item <;> simp [tasks, found]

theorem tasks_append (first second : List Item) :
    plan.tasks (first ++ second) = plan.tasks first ++ plan.tasks second :=
  List.filterMap_append

end Plan

/-- The action that each errand comes to. Code without a number gets the next one from `next` on. -/
def enact (next : Nat) : List Task → List Deed
  | [] => []
  | (item, .common action) :: rest => (item, action) :: enact next rest
  | (item, .code (some declared)) :: rest => (item, .custom item.site.rule declared) :: enact next rest
  | (item, .code none) :: rest => (item, .custom item.site.rule next) :: enact (next + 1) rest

/-- Code comes to an action with its declared number, if it has one. -/
theorem mem_enact_of_code {item : Item} {declared : Option Nat} {tasks : List Task}
    (listed : (item, .code declared) ∈ tasks) (next : Nat) :
    ∃ number, (declared = none ∨ declared = some number) ∧
      (item, .custom item.site.rule number) ∈ enact next tasks := by
  fun_induction enact next tasks with
  | case1 => cases listed
  | case2 next other action rest ih =>
      rcases List.mem_cons.mp listed with ⟨⟨⟩⟩ | later
      obtain ⟨number, own, found⟩ := ih later
      exact ⟨number, own, List.mem_cons_of_mem _ found⟩
  | case3 next other own rest ih =>
      rcases List.mem_cons.mp listed with ⟨⟨⟩⟩ | later
      · exact ⟨own, Or.inr rfl, List.mem_cons_self⟩
      · obtain ⟨number, own, found⟩ := ih later
        exact ⟨number, own, List.mem_cons_of_mem _ found⟩
  | case4 next other rest ih =>
      rcases List.mem_cons.mp listed with ⟨⟨⟩⟩ | later
      · exact ⟨next, Or.inl rfl, List.mem_cons_self⟩
      · obtain ⟨number, own, found⟩ := ih later
        exact ⟨number, own, List.mem_cons_of_mem _ found⟩

/-- How many errands get a number of their own. -/
def draws (tasks : List Task) : Nat :=
  tasks.countP fun task => task.2 == .code none

theorem draws_append (first second : List Task) : draws (first ++ second) = draws first + draws second :=
  List.countP_append

theorem enact_append (first second : List Task) (next : Nat) :
    enact next (first ++ second) = enact next first ++ enact (next + draws first) second := by
  fun_induction enact next first with
  | case1 => rfl
  | case2 next item action rest ih => simp [enact, ih, draws]
  | case3 next item declared rest ih => simp [enact, ih, draws]
  | case4 next item rest ih =>
      have more : next + draws ((item, .code none) :: rest) = next + 1 + draws rest := by
        simp [draws]
        omega
      simp [enact, ih, more]

/-- What runs along the transitions of the network of a plan: the elements and commands with errands, each with its
action. -/
def Plan.deeds (plan : Plan) : List Deed :=
  enact plan.grammar.actionCount (plan.tasks plan.grammar.items)

theorem Plan.mem_deeds_of_code {plan : Plan} {item : Item} (listed : item ∈ plan.grammar.items)
    {declared : Option Nat} (runs : plan.errand? item = some (.code declared)) :
    ∃ number, (declared = none ∨ declared = some number) ∧ (item, .custom item.site.rule number) ∈ plan.deeds :=
  mem_enact_of_code (List.mem_filterMap.mpr ⟨item, listed, by rw [runs]; rfl⟩) _

/-- The number of an action that is code. -/
def LexerAction.number? : LexerAction → Option Nat
  | .custom _ number => some number
  | _ => none

section Numbers

def Errand.declared? : Errand → Option Nat
  | .code declared => declared
  | .common _ => none

/-- Common actions are no code, so the numbers are the declared ones and those that follow. -/
theorem numbers_enact (tasks : List Task)
    (common : ∀ task ∈ tasks, ∀ action, task.2 = .common action → action.number? = none) (next : Nat) :
    ((enact next tasks).filterMap fun deed => deed.2.number?).Perm
      ((tasks.filterMap fun task => task.2.declared?) ++ List.range' next (draws tasks)) := by
  fun_induction enact next tasks with
  | case1 => simp [draws]
  | case2 next item action rest ih =>
      rw [List.forall_mem_cons] at common
      simpa [Errand.declared?, draws, common.1 action rfl] using ih common.2
  | case3 next item declared rest ih =>
      rw [List.forall_mem_cons] at common
      simpa [Errand.declared?, draws, LexerAction.number?] using ih common.2
  | case4 next item rest ih =>
      rw [List.forall_mem_cons] at common
      have drawn : draws ((item, .code none) :: rest) = draws rest + 1 := by simp [draws]
      rw [drawn, List.range'_succ]
      exact ((ih common.2).cons next).trans List.perm_middle.symm

theorem number?_builtin {name : String} {builtin : Builtin} (found : builtin? name = some builtin) {grammar : Grammar}
    {argument : Option String} {action : LexerAction} (stands : builtin.action? grammar argument = some action) :
    action.number? = none := by
  have common : match builtin with
      | .plain action => action.number? = none
      | .named _ action => ∀ value, (action value).number? = none := by
    unfold builtin? at found
    split at found <;> cases found <;> first | rfl | exact fun _ => rfl
  cases builtin with
  | plain other =>
      cases argument with
      | none =>
          cases stands
          exact common
      | some argument => cases stands
  | named space other =>
      cases argument with
      | none => cases stands
      | some argument =>
          obtain ⟨value, _, rfl⟩ := Option.map_eq_some_iff.mp stands
          exact common value

theorem Plan.commandErrand?_cases {plan : Plan} {command : Command} {errand : Errand}
    (found : plan.commandErrand? command = some errand) :
    (∃ action : LexerAction, errand = .common action ∧ action.number? = none) ∨ errand = .code none := by
  unfold Plan.commandErrand? at found
  split at found
  · rename_i builtin known
    obtain ⟨action, stands, rfl⟩ := Option.map_eq_some_iff.mp found
    exact Or.inl ⟨action, rfl, number?_builtin known stands⟩
  · obtain ⟨template, _, rendered⟩ := Option.bind_eq_some_iff.mp found
    unfold Template.errand? at rendered
    split at rendered
    · exact Or.inr (Option.some.inj rendered).symm
    · cases rendered

theorem Plan.number?_common {plan : Plan} {items : List Item} : ∀ task ∈ plan.tasks items, ∀ action,
    task.2 = .common action → action.number? = none := by
  intro task listed action same
  obtain ⟨item, _, runs⟩ := List.mem_filterMap.mp listed
  obtain ⟨errand, found, rfl⟩ := Option.map_eq_some_iff.mp runs
  obtain rfl : errand = .common action := same
  cases item with
  | element site element =>
      obtain ⟨form, position⟩ := element
      cases form <;> cases found
  | command site command =>
      rcases commandErrand?_cases found with ⟨_, ⟨⟩, none⟩ | ⟨⟨⟩⟩
      exact none

/-- The numbers ascend, from `low` on and below `high`. -/
structure Climbs (low high : Nat) (numbers : List Nat) : Prop where
  le : low ≤ high
  sorted : numbers.Pairwise (· < ·)
  bounds : ∀ number ∈ numbers, low ≤ number ∧ number < high

namespace Climbs

variable {low middle high : Nat}

theorem nil (le : low ≤ high) : Climbs low high [] :=
  ⟨le, .nil, by simp⟩

theorem single (number : Nat) : Climbs number (number + 1) [number] :=
  ⟨Nat.le_succ number, List.pairwise_singleton _ _, by simp⟩

theorem append {first second : List Nat} (before : Climbs low middle first) (after : Climbs middle high second) :
    Climbs low high (first ++ second) := by
  refine ⟨Nat.le_trans before.le after.le, List.pairwise_append.mpr ⟨before.sorted, after.sorted, ?_⟩, ?_⟩
  · intro small listed large later
    exact Nat.lt_of_lt_of_le (before.bounds small listed).2 (after.bounds large later).1
  · intro number listed
    rcases List.mem_append.mp listed with early | late
    · exact (before.bounds number early).imp_right fun small => Nat.lt_of_lt_of_le small after.le
    · exact (after.bounds number late).imp_left (Nat.le_trans before.le)

end Climbs

/-- The number that an action was declared with. -/
def Item.declared? : Item → Option Nat
  | .element _ ⟨.action _ declared, _⟩ => declared
  | _ => none

/-- The numbers of the declared actions. -/
def declaredNumbers (items : List Item) : List Nat :=
  items.filterMap Item.declared?

theorem declaredNumbers_append (first second : List Item) :
    declaredNumbers (first ++ second) = declaredNumbers first ++ declaredNumbers second :=
  List.filterMap_append

theorem declaredNumbers_commandItems (site : Site) (alternative : Nat) : ∀ (written : List Command) (index : Nat),
    declaredNumbers (commandItems site alternative index written) = []
  | [], _ => rfl
  | _ :: rest, index => declaredNumbers_commandItems site alternative rest (index + 1)

mutual

theorem climbs_numberElement (numbering : Numbering) (site : Site) : ∀ (element : Element),
    Climbs numbering.actions ((numberElement true element).run numbering).2.actions
      (declaredNumbers (elementItems site ((numberElement true element).run numbering).1))
  | ⟨.action _ _, _⟩ => .single numbering.actions
  | ⟨.set items _, _⟩ => climbs_numberElements numbering site 0 0 items
  | ⟨.block ⟨alternatives, _⟩, _⟩ => climbs_numberAlternatives numbering site 0 alternatives
  | ⟨.predicate _ _ _, _⟩ | ⟨.token _, _⟩ | ⟨.rule _ _, _⟩ | ⟨.literal _, _⟩ | ⟨.charSet _, _⟩ | ⟨.range _ _, _⟩
  | ⟨.wildcard, _⟩ => .nil (Nat.le_refl _)

theorem climbs_numberElements (numbering : Numbering) (site : Site) (alternative index : Nat) :
    ∀ (elements : List Element), Climbs numbering.actions ((numberElements true elements).run numbering).2.actions
      (declaredNumbers (listItems site alternative index ((numberElements true elements).run numbering).1))
  | [] => .nil (Nat.le_refl _)
  | first :: rest => by
      have front := climbs_numberElement numbering (site.child alternative index) first
      have back := climbs_numberElements ((numberElement true first).run numbering).2 site alternative (index + 1) rest
      have whole := front.append back
      rw [← declaredNumbers_append] at whole
      exact whole

theorem climbs_numberAlternatives (numbering : Numbering) (site : Site) (index : Nat) :
    ∀ (alternatives : List Alternative),
      Climbs numbering.actions ((numberAlternatives true alternatives).run numbering).2.actions
        (declaredNumbers (alternativeItems site index ((numberAlternatives true alternatives).run numbering).1))
  | [] => .nil (Nat.le_refl _)
  | ⟨elements, commands⟩ :: rest => by
      have front := climbs_numberElements numbering site index 0 elements
      have back := climbs_numberAlternatives ((numberElements true elements).run numbering).2 site (index + 1) rest
      have none := declaredNumbers_commandItems site index commands 0
      have whole := front.append back
      rw [← List.nil_append (declaredNumbers (alternativeItems _ _ _)), ← none, ← declaredNumbers_append,
        ← declaredNumbers_append] at whole
      exact whole

end

theorem climbs_numberRules (numbering : Numbering) (index : Nat) : ∀ (rules : List Rule),
    Climbs numbering.actions ((Draft.numberRules true rules).run numbering).2.actions
      (declaredNumbers (ruleItems index ((Draft.numberRules true rules).run numbering).1))
  | [] => .nil (Nat.le_refl _)
  | rule :: rest => by
      have front := climbs_numberAlternatives numbering ⟨index, []⟩ 0 rule.alternatives
      have back := climbs_numberRules ((numberAlternatives true rule.alternatives).run numbering).2 (index + 1) rest
      have whole := front.append back
      rw [← declaredNumbers_append] at whole
      exact whole

theorem Draft.climbs_items {draft : Draft} (lexer : draft.kind = .lexer) :
    Climbs 0 draft.grammar.actionCount (declaredNumbers draft.grammar.items) := by
  have numbered := climbs_numberRules {} 0 draft.rules
  have always : (draft.kind == .lexer) = true := by simp [lexer]
  rw [← always] at numbered
  exact numbered

theorem Plan.declared?_tasks (plan : Plan) (items : List Item) :
    ((plan.tasks items).filterMap fun task => task.2.declared?) = declaredNumbers items := by
  rw [Plan.tasks, declaredNumbers, List.filterMap_filterMap]
  refine List.filterMap_congr fun item _ => ?_
  cases item with
  | element site element =>
      obtain ⟨form, position⟩ := element
      cases form <;> rfl
  | command site command =>
      cases found : plan.commandErrand? command with
      | none => simp [errand?, found, Item.declared?]
      | some errand =>
          rcases commandErrand?_cases found with ⟨action, rfl, _⟩ | rfl <;>
            simp [errand?, found, Item.declared?, Errand.declared?]

/-- In the grammar of a lexer the numbers of code are all different. -/
theorem Plan.nodup_numbers {plan : Plan} {draft : Draft} (lexer : draft.kind = .lexer)
    (made : plan.grammar = draft.grammar) : (plan.deeds.filterMap fun deed => deed.2.number?).Nodup := by
  have climbs := draft.climbs_items lexer
  rw [← made] at climbs
  refine (numbers_enact _ plan.number?_common _).nodup_iff.mpr ?_
  rw [plan.declared?_tasks, List.nodup_append]
  refine ⟨climbs.sorted.imp Nat.ne_of_lt, List.nodup_range', fun declared listed drawn later => ?_⟩
  have small := (climbs.bounds declared listed).2
  have large := (List.mem_range'_1.mp later).1
  omega

end Numbers

end GrammarNetwork
