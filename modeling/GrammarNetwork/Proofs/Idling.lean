import GrammarNetwork.Proofs.Leaves
import GrammarNetwork.Proofs.Places

/-! Idling: which elements of a grammar match nothing and run nothing, so that all that is built for them only leads
on, and where they are the end of an alternative. -/

namespace GrammarNetwork

namespace Plan

/-- None of these commands runs anything. -/
def runsNothing (plan : Plan) (written : List Command) : Bool :=
  written.all fun command => (plan.commandErrand? command).isNone

mutual

/-- The element only leads on: it is a predicate, a literal of a lexer without characters, or a block without a suffix
around a single alternative that only leads on. -/
def leadsOn (plan : Plan) : Element → Bool
  | ⟨.predicate _ _ _, _⟩ => true
  | ⟨.literal text, _⟩ =>
      plan.kind = .lexer && (((Literal.stringValue? text).map String.toList).getD []).isEmpty
  | ⟨.block ⟨[⟨elements, written⟩], none⟩, _⟩ => plan.allLeadOn elements && plan.runsNothing written
  | _ => false

def allLeadOn (plan : Plan) : List Element → Bool
  | [] => true
  | first :: rest => plan.leadsOn first && plan.allLeadOn rest

end

mutual

/-- The elements inside the one at `site` that only lead on, as does everything behind them in their alternatives. -/
def innerTails (plan : Plan) (site : Site) : Element → List Item
  | ⟨.block ⟨alternatives, _⟩, _⟩ => plan.alternativeTails site 0 alternatives
  | _ => []

/-- Such elements of an alternative with these commands, and inside its elements. -/
def listTails (plan : Plan) (site : Site) (alternative : Nat) (written : List Command) : Nat → List Element → List Item
  | _, [] => []
  | index, first :: rest =>
      plan.innerTails (site.child alternative index) first ++
        ((if plan.allLeadOn (first :: rest) && plan.runsNothing written
          then [.element (site.child alternative index) first] else []) ++
        plan.listTails site alternative written (index + 1) rest)

def alternativeTails (plan : Plan) (site : Site) : Nat → List Alternative → List Item
  | _, [] => []
  | index, ⟨elements, written⟩ :: rest =>
      plan.listTails site index written 0 elements ++ plan.alternativeTails site (index + 1) rest

end

/-- The elements of the rule that only lead on, as does everything behind them in their alternatives. -/
def ruleTails (plan : Plan) (index : Nat) (rule : Rule) : List Item :=
  plan.alternativeTails ⟨index, []⟩ 0 rule.alternatives

section Idle

variable {plan : Plan} {index : Nat}

theorem idle_chain : ∀ (labels : List Label), (Trail.chain labels).idle = labels.all Label.passes
  | [] => rfl
  | label :: rest => by rw [Trail.chain, Trail.idle, idle_chain rest, List.all_cons]

theorem not_idle_of_reads {label : Label} (reads : label.reads = true) : (Trail.chain [label]).idle = false := by
  rw [idle_chain, List.all_cons, label.not_passes_of_reads reads, Bool.false_and]

theorem idle_callLeaf {name : String} {precedence : Option Int} {leaf : Leaf}
    (found : plan.callLeaf? name precedence = some leaf) : leaf.trail.idle = false := by
  obtain ⟨rule, _, rfl⟩ := Option.map_eq_some_iff.mp found
  rfl

theorem leadsOn_of_parserLeaf {element : Element} {leaf : Leaf} (found : plan.parserLeaf? index element = some leaf)
    (idle : leaf.trail.idle = true) : plan.leadsOn element = true := by
  obtain ⟨form, position⟩ := element
  cases form with
  | predicate code number precedence => rw [leadsOn]
  | rule name precedence => simp [idle_callLeaf found] at idle
  | set items inverted =>
      cases found
      cases inverted <;> cases idle
  | charSet text => cases found
  | block body => cases found
  | _ =>
      cases found
      cases idle

theorem leadsOn_of_lexerLeaf (lexer : plan.kind = .lexer) {element : Element} {leaf : Leaf}
    (found : plan.lexerLeaf? index element = some leaf) (idle : leaf.trail.idle = true) :
    plan.leadsOn element = true := by
  obtain ⟨form, position⟩ := element
  cases form with
  | token name =>
      rw [lexerLeaf?] at found
      split at found
      · cases found
        cases idle
      · simp [idle_callLeaf found] at idle
  | literal text =>
      cases found
      rw [Leaf.trail, idle_chain, List.all_map] at idle
      rw [leadsOn, lexer]
      cases characters : ((Literal.stringValue? text).map String.toList).getD [] with
      | nil => rfl
      | cons character rest => simp [characters, Label.not_passes_of_reads (Build.reads_rangeSymbol ..)] at idle
  | charSet text =>
      obtain ⟨set, _, rfl⟩ := Option.map_eq_some_iff.mp found
      cases idle
  | range first last =>
      rw [lexerLeaf?] at found
      split at found
      · cases found
        simp [Leaf.trail, not_idle_of_reads (Build.reads_rangeSymbol ..)] at idle
      · cases found
        cases idle
  | set items inverted =>
      obtain ⟨set, _, rfl⟩ := Option.map_eq_some_iff.mp found
      simp [Leaf.trail, not_idle_of_reads (Build.reads_lexerSetLabel ..)] at idle
  | _ =>
      simp only [lexerLeaf?] at found
      exact leadsOn_of_parserLeaf found idle

/-- An element that is no block does more than lead on unless it is of a form that does not. -/
theorem leadsOn_of_leaf {element : Element} {leaf : Leaf} (found : plan.leaf? index element = some leaf)
    (idle : leaf.trail.idle = true) : plan.leadsOn element = true := by
  unfold leaf? at found
  split at found
  · exact leadsOn_of_parserLeaf found idle
  · rename_i lexer
    exact leadsOn_of_lexerLeaf lexer found idle

/-- Code that runs has a transition of its own. -/
theorem errand?_of_passes {command : Command} {template : Template}
    (passes : (templateLabel index command template).passes = true) : template.errand? command.argument = none := by
  refine if_neg ?_
  rintro ⟨takes, runs⟩
  have label : templateLabel index command template = .action index none false := by
    unfold templateLabel codeLabel
    cases given : command.argument <;> simp_all
  rw [label] at passes
  cases passes

theorem commandErrand?_of_passes {command : Command} {label : Label}
    (found : plan.commandLabel? index command = some label) (passes : label.passes = true) :
    plan.commandErrand? command = none := by
  unfold commandLabel? at found
  unfold commandErrand?
  cases kind : plan.kind with
  | parser => simp [kind] at found
  | lexer =>
      cases known : builtin? command.name with
      | some builtin =>
          simp only [kind, known, Build.gives_builtinAction?.answer, Option.map_some, Option.some.injEq] at found ⊢
          cases action : builtin.action? plan.grammar command.argument with
          | none => rfl
          | some action =>
              rw [← found] at passes
              simp [action, Label.passes] at passes
      | none =>
          cases rendered : plan.templates (templateName command.name) with
          | none => rfl
          | some template =>
              simp only [kind, known, rendered, Option.some.injEq] at found
              exact errand?_of_passes (found ▸ passes)

end Idle

end Plan

end GrammarNetwork
