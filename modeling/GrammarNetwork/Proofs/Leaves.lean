import GrammarNetwork.Construction.Leaf
import GrammarNetwork.Proofs.Errands
import GrammarNetwork.Proofs.Shapes

/-! The trails of the elements that are no blocks. What a leaf matches is worked out by steps that only
report problems; their answers do not depend on the network that is being built. -/

namespace GrammarNetwork

/-- The label reads a symbol. -/
def Label.reads : Label → Bool
  | .atom _ | .range _ _ | .set _ | .notSet _ | .wildcard => true
  | _ => false

theorem Label.not_passes_of_reads {label : Label} (reads : label.reads = true) : label.passes = false := by
  cases label <;> first | rfl | cases reads

theorem reads_rangeLabel (first last : Int) : (rangeLabel first last).reads = true := by
  unfold rangeLabel
  split <;> rfl

namespace Build

variable {α β : Type} {index : Nat}

/-- A construction with nothing in it but a current rule. -/
def blank (index : Nat) : Construction where
  network := { kind := .parser, maxTokenType := 0 }
  rule := some index

/-- What a step answers while the rule is being built, if it does not fail. -/
def answer? (index : Nat) (step : Build α) : Option α :=
  match step (blank index) with
  | .ok value _ => some value
  | .error _ _ => none

/-- The step ends well: it gives this value, and all that changes is the journal. -/
def Gives (index : Nat) (step : Build α) (value : α) : Prop :=
  ∀ before : Construction, before.rule = some index →
    ∃ journal : Journal, before.journal.Continues journal ∧ step before = .ok value { before with journal }

/-- The step fails for this reason. -/
def Refuses (index : Nat) (step : Build α) (failure : Failure) : Prop :=
  ∀ before : Construction, before.rule = some index → ∃ after, step before = .error failure after

/-- The step only reads the current rule and reports problems. It fails for one of the faults if there are
any. -/
def Quiet (index : Nat) (faults : List Failure) (step : Build α) : Prop :=
  (faults = [] ∧ ∃ value, Gives index step value) ∨ ∃ failure ∈ faults, Refuses index step failure

theorem gives_pure (value : α) : Gives index (pure value) value :=
  fun before _ => ⟨before.journal, .refl _, rfl⟩

theorem gives_report {plan : Plan} {problem : Problem} {position : Option Position}
    {arguments : List String} (early : problem.isClosing = false) :
    Gives index (report plan problem position arguments) () :=
  fun _ _ => ⟨_, .report _ early, rfl⟩

theorem Gives.bind {step : Build α} {next : α → Build β} {value : α} {result : β}
    (first : Gives index step value) (second : Gives index (next value) result) :
    Gives index (step >>= next) result := by
  intro before current
  obtain ⟨middle, same, stepped⟩ := first before current
  obtain ⟨last, again, finished⟩ := second { before with journal := middle } current
  exact ⟨last, same.trans again, by simp [Bind.bind, EStateM.bind, stepped, finished]⟩

theorem Gives.refuses {step : Build α} {next : α → Build β} {value : α} {failure : Failure}
    (first : Gives index step value) (second : Refuses index (next value) failure) :
    Refuses index (step >>= next) failure := by
  intro before current
  obtain ⟨middle, _, stepped⟩ := first before current
  obtain ⟨after, failed⟩ := second { before with journal := middle } current
  exact ⟨after, by simp [Bind.bind, EStateM.bind, stepped, failed]⟩

theorem Refuses.bind {step : Build α} {failure : Failure} (refuses : Refuses index step failure)
    (next : α → Build β) : Refuses index (step >>= next) failure := by
  intro before current
  obtain ⟨after, failed⟩ := refuses before current
  exact ⟨after, by simp [Bind.bind, EStateM.bind, failed]⟩

theorem Gives.quiet {step : Build α} {value : α} (gives : Gives index step value) : Quiet index [] step :=
  Or.inl ⟨rfl, value, gives⟩

theorem quiet_pure (value : α) : Quiet index [] (pure value) :=
  (gives_pure value).quiet

theorem quiet_report {plan : Plan} {problem : Problem} {position : Option Position}
    {arguments : List String} (early : problem.isClosing = false) :
    Quiet index [] (report plan problem position arguments) :=
  (gives_report early).quiet

theorem quiet_bind {step : Build α} {next : α → Build β} {faults more : List Failure}
    (first : Quiet index faults step) (second : ∀ value, Quiet index more (next value)) :
    Quiet index (faults ++ more) (step >>= next) := by
  rcases first with ⟨rfl, value, gives⟩ | ⟨failure, listed, refuses⟩
  · rcases second value with ⟨rfl, result, follows⟩ | ⟨failure, listed, refuses⟩
    · exact Or.inl ⟨rfl, result, gives.bind follows⟩
    · exact Or.inr ⟨failure, listed, gives.refuses refuses⟩
  · exact Or.inr ⟨failure, List.mem_append_left more listed, refuses.bind next⟩

/-- A step that always ends well comes before one that may fail. -/
theorem quiet_then {step : Build α} {next : α → Build β} {faults : List Failure}
    (first : Quiet index [] step) (second : ∀ value, Quiet index faults (next value)) :
    Quiet index faults (step >>= next) :=
  quiet_bind first second

theorem quiet_fail {plan : Plan} {cause : Inconsistency} :
    Quiet index [.inconsistent cause] (fail plan cause : Build α) :=
  Or.inr ⟨_, List.mem_singleton.mpr rfl, fun _ _ => ⟨_, rfl⟩⟩

theorem Gives.answer {step : Build α} {value : α} (gives : Gives index step value) :
    answer? index step = some value := by
  obtain ⟨journal, _, ended⟩ := gives (blank index) rfl
  simp [answer?, ended]

theorem Refuses.answer {step : Build α} {failure : Failure} (refuses : Refuses index step failure) :
    answer? index step = none := by
  obtain ⟨after, ended⟩ := refuses (blank index) rfl
  simp [answer?, ended]

theorem Quiet.isSome_answer {step : Build α} {faults : List Failure} (quiet : Quiet index faults step) :
    (answer? index step).isSome = faults.isEmpty := by
  rcases quiet with ⟨rfl, value, gives⟩ | ⟨failure, listed, refuses⟩
  · rw [gives.answer]
    rfl
  · rw [refuses.answer, List.isEmpty_eq_false_iff.mpr (List.ne_nil_of_mem listed)]
    rfl

theorem meets_quiet {before current : Construction} {heap : Heap} {loops optionals : List Check}
    (grown : Grown before current heap loops optionals) {step : Build α} {faults : List Failure}
    (quiet : Quiet index faults step) (current_rule : before.rule = some index)
    {good : α → Construction → Prop} {bad : Failure → Prop}
    (next : ∀ value later, answer? index step = some value → Grown before later heap loops optionals →
      good value later) (fails : ∀ failure ∈ faults, bad failure) :
    Meets step current good bad := by
  have now := grown.rule.trans current_rule
  rcases quiet with ⟨_, value, gives⟩ | ⟨failure, listed, refuses⟩
  · obtain ⟨journal, same, ended⟩ := gives current now
    simp only [Meets, ended]
    exact next value _ gives.answer (grown.unmoved ⟨rfl, rfl, rfl, rfl, same⟩)
  · obtain ⟨after, ended⟩ := refuses current now
    simp only [Meets, ended]
    exact fails failure listed

theorem meets_gives {before current : Construction} {heap : Heap} {loops optionals : List Check}
    (grown : Grown before current heap loops optionals) {step : Build α} {value : α}
    (gives : Gives index step value) (current_rule : before.rule = some index)
    {good : α → Construction → Prop} {bad : Failure → Prop}
    (next : ∀ later, Grown before later heap loops optionals → good value later) :
    Meets step current good bad := by
  refine meets_quiet grown gives.quiet current_rule (fun other later answered grown => ?_) (by simp)
  rw [gives.answer] at answered
  cases answered
  exact next later grown

section Characters

variable {plan : Plan} {position : Option Position} {root : String}

/-- Whether the rule with this number matches letters in both cases. -/
def ignoresCase (plan : Plan) (index : Nat) : Bool :=
  ((plan.grammar.rules[index]?).map plan.grammar.isCaseInsensitive).getD false

/-- What a range of characters matches in the rule with this number. -/
def rangeSymbol (plan : Plan) (index : Nat) (first last : Int) : Label :=
  let range := Unicode.CaseRange.classify first last
  if ignoresCase plan index && !range.isSingle then
    .set ((IntervalSet.ofRange range.lowerFirst range.lowerLast).insertRange
      range.upperFirst range.upperLast)
  else
    rangeLabel first last

theorem reads_rangeSymbol (plan : Plan) (index : Nat) (first last : Int) :
    (rangeSymbol plan index first last).reads = true := by
  simp only [rangeSymbol]
  split
  · rfl
  · exact reads_rangeLabel _ _

theorem reads_lexerSetLabel (set : IntervalSet) (inverted : Bool) : (lexerSetLabel set inverted).reads = true := by
  unfold lexerSetLabel
  split
  · rfl
  · split
    · exact reads_rangeLabel _ _
    · rfl

/-- The ends of a range between two literals, unless they are wrong. -/
def rangeEnds (first last : String) : Option (Int × Int) :=
  match Literal.charValue? first, Literal.charValue? last with
  | some low, some high => if high < low then none else some (low, high)
  | _, _ => none

theorem isCaseInsensitive_eq {before : Construction} (current : before.rule = some index) :
    isCaseInsensitive plan before = .ok (ignoresCase plan index) before := by
  have ended : isCaseInsensitive plan before =
      .ok (((before.rule.bind fun index => plan.grammar.rules[index]?).map
        plan.grammar.isCaseInsensitive).getD false) before := rfl
  rw [ended, current]
  rfl

theorem gives_isCaseInsensitive : Gives index (isCaseInsensitive plan) (ignoresCase plan index) :=
  fun before current => ⟨before.journal, .refl _, isCaseInsensitive_eq current⟩

theorem gives_reportStrays {range : Unicode.CaseRange} : Gives index (reportStrays plan range position) () := by
  unfold reportStrays
  split
  · exact gives_pure _
  · exact gives_report rfl

theorem gives_rangeTransition {target : StateId} {first last : Int} :
    Gives index (rangeTransition plan target first last position)
      ⟨target, rangeSymbol plan index first last⟩ := by
  refine gives_reportStrays.bind (gives_isCaseInsensitive.bind ?_)
  simp only [rangeSymbol]
  split
  · exact gives_pure _
  · exact gives_pure _

theorem gives_rangeEnds? {first last : String} :
    Gives index (rangeEnds? plan first last position) (rangeEnds first last) := by
  unfold rangeEnds? rangeEnds
  cases low : Literal.charValue? first with
  | none =>
      cases high : Literal.charValue? last with
      | none => exact (gives_report rfl).bind ((gives_report rfl).bind (gives_pure _))
      | some high => exact (gives_report rfl).bind (gives_pure _)
  | some low =>
      cases high : Literal.charValue? last with
      | none => exact (gives_report rfl).bind (gives_pure _)
      | some high =>
          simp only [Option.isNone_some, Bool.false_eq_true, ↓reduceIte]
          split
          · exact (gives_report rfl).bind (gives_pure _)
          · exact gives_pure _

theorem quiet_addExactRange {set : IntervalSet} {first last : Int} {previous : Option RangeStatus} :
    Quiet index [] (addExactRange plan root position set first last previous) := by
  unfold addExactRange
  simp only []
  repeat' first
    | exact quiet_pure _
    | exact quiet_report rfl
    | exact gives_reportStrays.quiet
    | refine quiet_then ?_ fun _ => ?_
    | split

theorem quiet_addRange {set : IntervalSet} {first last : Int} :
    Quiet index [] (addRange plan root position set first last) := by
  unfold addRange
  simp only []
  repeat' first
    | exact quiet_pure _
    | exact gives_isCaseInsensitive.quiet
    | exact gives_reportStrays.quiet
    | exact quiet_addExactRange
    | refine quiet_then ?_ fun _ => ?_
    | split

theorem quiet_applyPending {set : IntervalSet} {pending : Pending} :
    Quiet index [] (applyPending plan root position set pending) := by
  cases pending with
  | nothing => exact quiet_pure _
  | codePoint code opens => exact quiet_addRange
  | property set => exact quiet_pure _

theorem quiet_takeCodePoint {set : IntervalSet} {pending : Pending} {code : Int} :
    Quiet index [] (takeCodePoint plan root position set pending code) := by
  unfold takeCodePoint
  repeat' first
    | exact quiet_pure _
    | exact quiet_report rfl
    | exact quiet_addRange
    | exact quiet_applyPending
    | refine quiet_then ?_ fun _ => ?_
    | split

theorem quiet_scanTokens (tokens : List CharSetToken) : ∀ {atStart : Bool} {set : IntervalSet}
    {pending : Pending}, Quiet index [] (scanTokens plan root position atStart tokens set pending) := by
  induction tokens with
  | nil =>
      intro atStart set pending
      exact quiet_pure _
  | cons token rest ih =>
      intro atStart set pending
      unfold scanTokens
      repeat' first
        | exact quiet_pure _
        | exact quiet_report rfl
        | exact quiet_takeCodePoint
        | exact quiet_applyPending
        | exact ih
        | refine quiet_then ?_ fun _ => ?_
        | split

theorem quiet_charSet {text : String} : Quiet index [] (charSet plan text position) := by
  unfold charSet
  repeat' first
    | exact quiet_pure _
    | exact quiet_report rfl
    | exact quiet_scanTokens _
    | exact quiet_applyPending
    | refine quiet_then ?_ fun _ => ?_
    | split

/-- Why an item cannot be in the set of a lexer. -/
def itemFaults (item : Element) : List Failure :=
  match item.form with
  | .range _ _ | .charSet _ | .literal _ | .token _ => []
  | _ => [.inconsistent (.setItem item.kindName)]

theorem quiet_addSetItem {set : IntervalSet} {item : Element} :
    Quiet index (itemFaults item) (addSetItem plan root position set item) := by
  obtain ⟨form, place⟩ := item
  cases form with
  | range first last =>
      refine quiet_then gives_rangeEnds?.quiet fun ends => ?_
      cases ends with
      | none => exact quiet_pure _
      | some ends => exact quiet_addRange
  | charSet text => exact quiet_then quiet_charSet fun _ => quiet_pure _
  | literal text =>
      simp only [addSetItem]
      split
      · exact quiet_addRange
      · exact quiet_then (quiet_report rfl) fun _ => quiet_pure _
  | token name => exact quiet_then (quiet_report rfl) fun _ => quiet_pure _
  | _ => exact quiet_fail

theorem quiet_addSetItems (items : List Element) : ∀ {set : IntervalSet},
    Quiet index (items.flatMap itemFaults) (addSetItems plan root position set items) := by
  induction items with
  | nil =>
      intro set
      exact quiet_pure _
  | cons item rest ih =>
      intro set
      rw [List.flatMap_cons]
      exact quiet_bind quiet_addSetItem fun _ => ih

theorem gives_argumentValue? {space : NameSpace} {name : String} :
    Gives index (argumentValue? plan space name) (space.value? plan.grammar name) := by
  unfold argumentValue? NameSpace.value?
  cases space.constant? name with
  | some value => exact gives_pure _
  | none =>
      dsimp only
      split
      · exact (gives_report (by cases space <;> rfl)).bind (gives_pure _)
      · cases (space.defined? plan.grammar name).or (int32? name) with
        | some value => exact gives_pure _
        | none => exact (gives_report (by cases space <;> rfl)).bind (gives_pure _)

theorem gives_builtinAction? {command : Command} {builtin : Builtin} :
    Gives index (builtinAction? plan command builtin) (builtin.action? plan.grammar command.argument) := by
  obtain ⟨name, argument, position⟩ := command
  cases builtin with
  | plain action =>
      cases argument with
      | none => exact gives_pure _
      | some argument => exact (gives_report rfl).bind (gives_pure _)
  | named space action =>
      cases argument with
      | none => exact (gives_report rfl).bind (gives_pure _)
      | some argument => exact gives_argumentValue?.bind (gives_pure _)

theorem quiet_builtinAction? {command : Command} {builtin : Builtin} :
    Quiet index [] (builtinAction? plan command builtin) :=
  gives_builtinAction?.quiet

end Characters

end Build

/-- The construction is at a rule of the plan whose start leads nowhere yet. -/
structure Ready (plan : Plan) (index : Nat) (construction : Construction) : Prop where
  rule : construction.rule = some index
  starts : construction.network.ruleStarts.size = plan.grammar.rules.size
  stops : construction.network.ruleStops.size = plan.grammar.rules.size
  moored : construction.network.Moored construction.rule

theorem Ready.grown {plan : Plan} {index : Nat} {before after : Construction} {heap : Heap}
    {loops optionals : List Check} (ready : Ready plan index before)
    (grown : Grown before after heap loops optionals) : Ready plan index after where
  rule := grown.rule.trans ready.rule
  starts := by rw [grown.ruleStarts, ready.starts]
  stops := by rw [grown.ruleStops, ready.stops]
  moored := grown.moored ready.moored

/-- Transitions with these labels one after the other, without numbers. -/
def Trail.chain : List Label → Trail
  | [] => .step 0 .epsilon .done
  | label :: rest => .step 0 label (Trail.chain rest)

/-- What an element that is no block comes to. -/
inductive Leaf where
  /-- Transitions one after the other. -/
  | chain (labels : List Label)
  /-- Two states with nothing between them. -/
  | broken

def Leaf.trail : Leaf → Trail
  | .chain labels => .chain labels
  | .broken => .gap 0 (.chain [])

namespace Plan

variable (plan : Plan) (index : Nat)

/-- The call of a rule. -/
def callLeaf? (name : String) (precedence : Option Int) : Option Leaf :=
  (plan.grammar.ruleIndex? name).map fun rule => .chain [.call rule (precedence.getD 0) 0]

/-- What an element of a parser comes to in the rule with number `index`. -/
def parserLeaf? : Element → Option Leaf
  | ⟨.token name, _⟩ => some (.chain [.atom (plan.grammar.tokenType name)])
  | ⟨.rule name precedence, _⟩ => plan.callLeaf? name precedence
  | ⟨.literal text, _⟩ => some (.chain [.atom (plan.grammar.tokenType text)])
  | ⟨.charSet _, _⟩ => none
  | ⟨.range first _, _⟩ => some (.chain [.atom (plan.grammar.tokenType first)])
  | ⟨.set items inverted, _⟩ =>
      let set := Build.tokenSet plan.grammar items
      some (.chain [if inverted then .notSet set else .set set])
  | ⟨.wildcard, _⟩ => some (.chain [.wildcard])
  | ⟨.action _ _, _⟩ => some (.chain [.action index none false])
  | ⟨.predicate _ _ (some level), _⟩ => some (.chain [.precedence level])
  | ⟨.predicate code number none, _⟩ => some (.chain [.predicate index number (code.toList.contains '$')])
  | ⟨.block _, _⟩ => none

/-- What an element of a lexer comes to in the rule with number `index`. -/
def lexerLeaf? : Element → Option Leaf
  | ⟨.token name, _⟩ =>
      if name = "EOF" then some (.chain [.atom endOfInput]) else plan.callLeaf? name none
  | ⟨.literal text, _⟩ =>
      some (.chain ((((Literal.stringValue? text).map String.toList).getD []).map fun character =>
        Build.rangeSymbol plan index character.toNat character.toNat))
  | ⟨.charSet text, position⟩ =>
      (Build.answer? index (Build.charSet plan text position)).map fun set => .chain [.set set]
  | ⟨.range first last, _⟩ =>
      match Build.rangeEnds first last with
      | some (low, high) => some (.chain [Build.rangeSymbol plan index low high])
      | none => some .broken
  | ⟨.set items inverted, position⟩ =>
      (Build.answer? index (Build.addSetItems plan (Element.text ⟨.set items inverted, position⟩) position
        .empty items)).map fun set => .chain [Build.lexerSetLabel set inverted]
  | element => plan.parserLeaf? index element

/-- What an element that is no block comes to in the rule with number `index`. -/
def leaf? (element : Element) : Option Leaf :=
  match plan.kind with
  | .parser => plan.parserLeaf? index element
  | .lexer => plan.lexerLeaf? index element

/-- Why a rule cannot be called. -/
def callFaults (name : String) : List Failure :=
  if (plan.grammar.ruleIndex? name).isSome then [] else [.undefinedRule name]

/-- Why an element that is no block cannot be built. -/
def leafFaults (element : Element) : List Failure :=
  match plan.kind, element.form with
  | _, .rule name _ => plan.callFaults name
  | .parser, .charSet _ => [.unsupported "char set" plan.grammar.kind]
  | .lexer, .token name => if name = "EOF" then [] else plan.callFaults name
  | .lexer, .set items _ => items.flatMap Build.itemFaults
  | _, _ => []

/-- Why a command cannot be built. -/
def commandFaults : List Failure :=
  match plan.kind with
  | .parser => [.unsupported "lexer command" plan.grammar.kind]
  | .lexer => []

/-- The label of an action that runs unless its code is blank. -/
def codeLabel (code : String) : Label :=
  if code.toList.all Unicode.isWhitespace then .epsilon else .action index none false

/-- What a command that is rendered from its template comes to. -/
def templateLabel (command : Command) (template : Template) : Label :=
  match template.takesArgument, command.argument with
  | true, none => .epsilon
  | false, some _ => .epsilon
  | _, argument => codeLabel index (template.render argument)

/-- What a command comes to. One that is wrong does nothing. -/
def commandLabel? (command : Command) : Option Label :=
  match plan.kind with
  | .parser => none
  | .lexer =>
      match builtin? command.name with
      | some builtin =>
          (Build.answer? index (Build.builtinAction? plan command builtin)).map fun action =>
            if action.isSome then .action index none false else .epsilon
      | none =>
          match plan.templates (templateName command.name) with
          | some template => some (templateLabel index command template)
          | none => some .epsilon

section Faults

variable {plan : Plan} {index : Nat}

theorem isSome_callLeaf? (name : String) (precedence : Option Int) :
    (plan.callLeaf? name precedence).isSome = (plan.callFaults name).isEmpty := by
  unfold callLeaf? callFaults
  cases plan.grammar.ruleIndex? name <;> rfl

theorem isSome_leaf? (element : Element) (leaf : ∀ body, element.form ≠ .block body) :
    (plan.leaf? index element).isSome = (plan.leafFaults element).isEmpty := by
  obtain ⟨form, position⟩ := element
  unfold leaf? leafFaults
  cases form with
  | block body => exact absurd rfl (leaf body)
  | rule name precedence => cases plan.kind <;> exact isSome_callLeaf? name precedence
  | token name =>
      cases plan.kind with
      | parser => rfl
      | lexer =>
          simp only [lexerLeaf?]
          split
          · rfl
          · exact isSome_callLeaf? name none
  | charSet text =>
      cases plan.kind with
      | parser => rfl
      | lexer => simpa [lexerLeaf?] using Build.quiet_charSet.isSome_answer
  | set items inverted =>
      cases plan.kind with
      | parser => rfl
      | lexer => simpa [lexerLeaf?] using (Build.quiet_addSetItems items).isSome_answer
  | range first last =>
      cases plan.kind with
      | parser => rfl
      | lexer =>
          simp only [lexerLeaf?]
          split <;> rfl
  | predicate code number precedence => cases plan.kind <;> cases precedence <;> rfl
  | _ => cases plan.kind <;> rfl

theorem isSome_commandLabel? (written : Command) :
    (plan.commandLabel? index written).isSome = plan.commandFaults.isEmpty := by
  unfold commandLabel? commandFaults
  cases plan.kind with
  | parser => rfl
  | lexer =>
      cases builtin? written.name with
      | some builtin => simpa using Build.quiet_builtinAction?.isSome_answer
      | none => cases plan.templates (templateName written.name) <;> rfl

end Faults

end Plan

namespace Build

section Pieces

variable {plan : Plan} {index : Nat} {before current : Construction} {bad : Failure → Prop}

/-- The construction has grown by a trail that looks as sketched, and its gaps have been reported. -/
def Draws (before : Construction) (index : Nat) (sketch : Option Trail) (piece : Handle)
    (after : Construction) : Prop :=
  ∃ trail, Built (before.flawed trail.gaps) after index trail piece ∧ sketch = some trail.erase

/-- The construction has grown by a trail that looks as the leaf says. -/
abbrev DrawsLeaf (before : Construction) (index : Nat) (leaf : Option Leaf) : Handle → Construction → Prop :=
  Draws before index (leaf.map Leaf.trail)

theorem draws_of_built {after : Construction} {trail : Trail} {piece : Handle} {sketch : Option Trail}
    (built : Built before after index trail piece) (gapless : trail.gaps = 0) (drawn : sketch = some trail.erase) :
    Draws before index sketch piece after := by
  refine ⟨trail, ?_, drawn⟩
  rw [gapless]
  exact built

theorem built_single {after : Construction} {left right : StateId} (label : Label)
    (callsBelow : ∀ index, label.callee? = some index → index < before.network.ruleStarts.size)
    (grown : Grown before after
      [(left, { rule := before.rule, kind := .basic,
                transitions := [label.edge before.network.ruleStarts right] }),
        (right, { rule := before.rule, kind := .basic })] [] []) :
    Built before after index (.step left label (.step right .epsilon .done)) ⟨left, right⟩ where
  grown := grown
  fits :=
    { first := rfl
      last := rfl
      opens := Or.inr (Or.inl ⟨rfl, rfl⟩)
      callsBelow := by
        intro other member index callee
        simp only [Trail.labels, List.mem_cons, List.not_mem_nil, or_false] at member
        rcases member with rfl | rfl
        · exact callsBelow index callee
        · cases callee }

theorem meets_atom {label : Label} (grown : Grown before current [] [] []) (plain : label.isCall = false)
    {sketch : Option Leaf} (same : sketch = some (.chain [label.erase])) :
    Meets (atom label) current (DrawsLeaf before index sketch) bad := by
  simp only [atom, meets_bind, meets_pure]
  refine grown.meets_newState fun left _ _ first => ?_
  refine first.meets_newState fun right _ _ second => ?_
  refine second.meets_addTransition [] fun after linked => ?_
  refine draws_of_built (built_single label ?_ ?_) rfl (by rw [same]; rfl)
  · intro index callee
    cases label <;> simp_all [Label.callee?, Label.isCall]
  · cases label <;> first | exact linked | cases plain

theorem meets_ruleLeaf (ready : Ready plan index before) {name : String} {precedence : Option Int}
    {position : Option Position} :
    Meets (ruleLeaf plan name precedence position) before (DrawsLeaf before index (plan.callLeaf? name precedence))
      (· ∈ plan.callFaults name) := by
  unfold ruleLeaf Plan.callLeaf? Plan.callFaults
  cases called : plan.grammar.ruleIndex? name with
  | none => exact List.mem_singleton.mpr rfl
  | some rule =>
      obtain ⟨bound, _⟩ := Array.findIdx?_eq_some_iff_getElem.mp called
      have startBound : rule < before.network.ruleStarts.size := ready.starts ▸ bound
      have stopBound : rule < before.network.ruleStops.size := ready.stops ▸ bound
      simp only [ruleStates, meets_bind, meets_network, Array.getElem?_eq_getElem startBound,
        Array.getElem?_eq_getElem stopBound, meets_pure]
      refine (Grown.refl before).meets_newState fun left _ _ first => ?_
      refine first.meets_newState fun right _ _ second => ?_
      refine second.meets_addTransition [] fun after linked => ?_
      refine draws_of_built (built_single (.call rule (precedence.getD 0) 0) ?_ ?_) rfl rfl
      · intro other callee
        cases callee
        exact startBound
      · simpa [Label.edge, Array.getElem?_eq_getElem startBound] using linked

theorem rangeSymbol_plain (plan : Plan) (index : Nat) (first last : Int) :
    (rangeSymbol plan index first last).callee? = none ∧
      (rangeSymbol plan index first last).erase = rangeSymbol plan index first last ∧
      ∀ starts right, (rangeSymbol plan index first last).edge starts right =
        ⟨right, rangeSymbol plan index first last⟩ := by
  unfold rangeSymbol rangeLabel
  simp only []
  split
  · exact ⟨rfl, rfl, fun _ _ => rfl⟩
  · split <;> exact ⟨rfl, rfl, fun _ _ => rfl⟩

/-- One character after the other behind a state that leads nowhere yet. -/
theorem meets_characterChain (current_rule : before.rule = some index) {position : Option Position}
    (characters : List Char) : ∀ {current : Construction} {ahead : Heap} {state : StateId},
    Grown before current (ahead ++ [(state, { rule := before.rule, kind := .basic })]) [] [] →
    Meets (characterChain plan position state characters) current (fun last after => ∃ trail : Trail,
      Grown before after (ahead ++ trail.layout before.network.ruleStarts before.rule none) [] [] ∧
      trail.first? = some state ∧ trail.last? = some last ∧ trail.IsOpen ∧ trail.CallsBelow 0 ∧
      (∀ kind, trail.blocks kind = []) ∧ trail.gaps = 0 ∧
      trail.erase = .chain (characters.map fun character =>
        rangeSymbol plan index character.toNat character.toNat)) bad := by
  induction characters with
  | nil =>
      intro current ahead state grown
      refine ⟨.step state .epsilon .done, grown, rfl, rfl, Or.inl ⟨rfl, rfl⟩, ?_, fun _ => rfl, rfl, rfl⟩
      intro label member index callee
      simp only [Trail.labels, List.mem_singleton] at member
      subst member
      cases callee
  | cons character rest ih =>
      intro current ahead state grown
      simp only [characterChain, meets_bind]
      refine grown.meets_newState fun right _ _ made => ?_
      refine meets_gives made gives_rangeTransition current_rule fun later made => ?_
      rw [List.append_assoc] at made
      refine made.meets_addTransition ahead fun _ linked => ?_
      rw [← List.singleton_append, ← List.append_assoc] at linked
      refine (ih linked).weaken ?_ fun _ admitted => admitted
      rintro last after ⟨trail, grown, first, ends, opens, calls, blocks, gapless, erased⟩
      obtain ⟨plain, same, edge⟩ := rangeSymbol_plain plan index character.toNat character.toNat
      refine ⟨.step state (rangeSymbol plan index character.toNat character.toNat) trail, ?_, rfl, ?_,
        Or.inr opens, ?_, blocks, gapless, ?_⟩
      · simpa [Trail.layout, Trail.enter_of_first? first, edge] using grown
      · simp [Trail.last?, ends]
      · intro label member index callee
        simp only [Trail.labels, List.mem_cons] at member
        rcases member with rfl | inside
        · rw [plain] at callee
          cases callee
        · exact calls label inside index callee
      · simp [Trail.erase, erased, Trail.chain, same]

theorem meets_tokenLeaf (ready : Ready plan index before) {name : String} {position : Option Position} :
    Meets (tokenLeaf plan name position) before (DrawsLeaf before index (plan.leaf? index ⟨.token name, position⟩))
      (· ∈ plan.leafFaults ⟨.token name, position⟩) := by
  unfold tokenLeaf Plan.leaf? Plan.leafFaults
  cases plan.kind with
  | parser => exact meets_atom (.refl before) rfl rfl
  | lexer =>
      simp only [Plan.lexerLeaf?]
      split
      · exact meets_atom (.refl before) rfl rfl
      · exact meets_ruleLeaf ready

theorem meets_chainLeaf (current_rule : before.rule = some index) {position : Option Position}
    {left : StateId} (made : Grown before current [(left, { rule := before.rule, kind := .basic })] [] [])
    (characters : List Char) :
    Meets (characterChain plan position left characters) current (fun last after =>
      DrawsLeaf before index (some (.chain (characters.map fun character =>
        rangeSymbol plan index character.toNat character.toNat))) ⟨left, last⟩ after) bad := by
  rw [← List.nil_append [(left, _)]] at made
  refine (meets_characterChain current_rule characters made).weaken ?_ fun _ admitted => admitted
  rintro last after ⟨trail, grown, first, ends, opens, calls, blocks, gapless, erased⟩
  refine draws_of_built ⟨?_, first, ends, opens, ?_⟩ gapless (by simp [Leaf.trail, erased])
  · simpa [Trail.checks, blocks] using grown
  · exact fun label member index callee => absurd (calls label member index callee) (Nat.not_lt_zero _)

/-- A literal that is wrong is a single state. -/
theorem draws_empty {left : StateId}
    (made : Grown before current [(left, { rule := before.rule, kind := .basic })] [] []) :
    DrawsLeaf before index (some (.chain [])) ⟨left, left⟩ current := by
  have single : Built before current index (.step left .epsilon .done) ⟨left, left⟩ := by
    refine ⟨made, rfl, rfl, Or.inl ⟨rfl, rfl⟩, ?_⟩
    intro label member index callee
    simp only [Trail.labels, List.mem_singleton] at member
    subst member
    cases callee
  exact draws_of_built single rfl rfl

theorem meets_literalLeaf (ready : Ready plan index before) {text : String} {position : Option Position} :
    Meets (literalLeaf plan text position) before
      (DrawsLeaf before index (plan.leaf? index ⟨.literal text, position⟩))
      (· ∈ plan.leafFaults ⟨.literal text, position⟩) := by
  unfold literalLeaf Plan.leaf?
  cases plan.kind with
  | parser => exact meets_atom (.refl before) rfl rfl
  | lexer =>
      simp only [Plan.lexerLeaf?, meets_bind]
      refine (Grown.refl before).meets_newState fun left _ _ made => ?_
      cases Literal.stringValue? text with
      | none =>
          simp only [meets_bind]
          exact made.meets_report rfl fun _ reported => draws_empty reported
      | some value =>
          simp only []
          split
          · rename_i empty
            simp only [meets_bind]
            refine made.meets_report rfl fun _ reported => ?_
            obtain rfl : value = "" := by simpa using empty
            exact draws_empty reported
          · simp only [meets_bind, meets_pure]
            exact meets_chainLeaf ready.rule made value.toList

theorem meets_charSetLeaf (ready : Ready plan index before) {text : String} {position : Option Position} :
    Meets (charSetLeaf plan text position) before
      (DrawsLeaf before index (plan.leaf? index ⟨.charSet text, position⟩))
      (· ∈ plan.leafFaults ⟨.charSet text, position⟩) := by
  unfold charSetLeaf Plan.leaf? Plan.leafFaults
  cases plan.kind with
  | parser => exact List.mem_singleton.mpr rfl
  | lexer =>
      simp only [Plan.lexerLeaf?, meets_bind]
      refine meets_quiet (.refl before) quiet_charSet ready.rule ?_ (by simp)
      intro set later answered grown
      exact meets_atom grown rfl (by simp [answered, Label.erase])

/-- A range that cannot be used is reported as a flaw. -/
theorem meets_rangeEnds? {first last : String} {position : Option Position}
    {good : Option (Int × Int) → Construction → Prop}
    (next : ∀ later, Grown.Unmoved current later →
      (rangeEnds first last = none → current.journal.flaws < later.journal.flaws) →
      good (rangeEnds first last) later) :
    Meets (rangeEnds? plan first last position) current good bad := by
  -- Either end may be unusable, and then each of them is reported.
  have reported : ∀ (problem : Problem) (arguments : List String) (later : Construction),
      problem.isClosing = false → problem.isFlaw = true → Grown.Unmoved current later →
      Grown.Unmoved current { later with
        journal := later.journal.report { problem, file := plan.grammar.fileName, position, arguments } } ∧
      current.journal.flaws < (later.journal.report
        { problem, file := plan.grammar.fileName, position, arguments }).flaws := by
    intro problem arguments later early wrong same
    refine ⟨⟨same.network, same.rule, same.loopChecks, same.optionalChecks,
      same.journal.trans (.report _ early)⟩, ?_⟩
    simpa [Journal.flaws_report, wrong] using Nat.lt_succ_of_le same.journal.flaws
  have here : Grown.Unmoved current current := ⟨rfl, rfl, rfl, rfl, .refl _⟩
  unfold rangeEnds?
  unfold rangeEnds at next
  cases low : Literal.charValue? first with
  | none =>
      rw [low] at next
      have once := reported .invalidLiteralInLexerSet [first] current rfl rfl here
      cases high : Literal.charValue? last with
      | none =>
          rw [high] at next
          have twice := reported .invalidLiteralInLexerSet [last] _ rfl rfl once.1
          exact meets_bind.mpr (meets_report.mpr (meets_bind.mpr (meets_report.mpr (next _ twice.1 fun _ => twice.2))))
      | some high => exact meets_bind.mpr (meets_report.mpr (next _ once.1 fun _ => once.2))
  | some low =>
      rw [low] at next
      cases high : Literal.charValue? last with
      | none =>
          rw [high] at next
          have once := reported .invalidLiteralInLexerSet [last] current rfl rfl here
          exact meets_bind.mpr (meets_report.mpr (next _ once.1 fun _ => once.2))
      | some high =>
          rw [high] at next
          simp only [Option.isNone_some, Bool.false_eq_true, ↓reduceIte]
          simp only at next
          split
          · rename_i empty
            rw [if_pos empty] at next
            have once := reported .emptyLiteral [first ++ ".." ++ last] current rfl rfl here
            exact meets_bind.mpr (meets_report.mpr (next _ once.1 fun _ => once.2))
          · rename_i inhabited
            rw [if_neg inhabited] at next
            exact next _ here (by simp)

theorem meets_rangeLeaf (ready : Ready plan index before) {first last : String}
    {position : Option Position} :
    Meets (rangeLeaf plan first last position) before
      (DrawsLeaf before index (plan.leaf? index ⟨.range first last, position⟩))
      (· ∈ plan.leafFaults ⟨.range first last, position⟩) := by
  unfold rangeLeaf Plan.leaf?
  cases plan.kind with
  | parser =>
      simp only [meets_bind]
      exact (Grown.refl before).meets_report rfl fun _ grown => meets_atom grown rfl rfl
  | lexer =>
      simp only [Plan.lexerLeaf?, meets_bind]
      refine (Grown.refl before).meets_newState fun left _ _ made => ?_
      refine made.meets_newState fun right _ _ both => ?_
      refine meets_rangeEnds? fun later same wrong => ?_
      cases ends : rangeEnds first last with
      | none =>
          -- The range is reported, which makes up for the gap.
          have reported := both.flaw same (wrong ends)
          refine ⟨.gap left (.step right .epsilon .done), ⟨reported, rfl, rfl, Or.inl ⟨rfl, rfl⟩, ?_⟩, rfl⟩
          intro label member index callee
          simp only [Trail.labels, List.mem_singleton] at member
          subst member
          cases callee
      | some found =>
          obtain ⟨low, high⟩ := found
          obtain ⟨plain, erased, edge⟩ := rangeSymbol_plain plan index low high
          simp only [meets_bind]
          refine meets_gives (both.unmoved same) gives_rangeTransition ready.rule fun later grown => ?_
          refine grown.meets_addTransition [] fun _ linked => ?_
          refine draws_of_built (built_single (rangeSymbol plan index low high) ?_ ?_) rfl ?_
          · simp [plain]
          · simpa [edge] using linked
          · simp only [Option.map_some, Leaf.trail, Trail.chain, Trail.erase, erased]
            rfl

theorem isCall_lexerSetLabel (set : IntervalSet) (inverted : Bool) :
    (lexerSetLabel set inverted).isCall = false ∧
      (lexerSetLabel set inverted).erase = lexerSetLabel set inverted := by
  unfold lexerSetLabel rangeLabel
  repeat' split
  all_goals exact ⟨rfl, rfl⟩

theorem meets_setLeaf (ready : Ready plan index before) {items : List Element} {inverted : Bool}
    {position : Option Position} :
    Meets (setLeaf plan items inverted position) before
      (DrawsLeaf before index (plan.leaf? index ⟨.set items inverted, position⟩))
      (· ∈ plan.leafFaults ⟨.set items inverted, position⟩) := by
  unfold setLeaf Plan.leaf? Plan.leafFaults
  cases plan.kind with
  | parser => cases inverted <;> exact meets_atom (.refl before) rfl rfl
  | lexer =>
      simp only [Plan.lexerLeaf?, meets_bind]
      refine meets_quiet (.refl before) (quiet_addSetItems items) ready.rule ?_ fun _ listed => listed
      intro set later answered grown
      obtain ⟨plain, same⟩ := isCall_lexerSetLabel set inverted
      exact meets_atom grown plain (by simp [answered, same])

theorem meets_predicateLeaf (ready : Ready plan index before) {code : String} {number : Nat}
    {precedence : Option Int} {position : Option Position} :
    Meets (predicateLeaf plan code number precedence) before
      (DrawsLeaf before index (plan.leaf? index ⟨.predicate code number precedence, position⟩))
      (· ∈ plan.leafFaults ⟨.predicate code number precedence, position⟩) := by
  have shape : ∀ precedence, plan.leaf? index ⟨.predicate code number precedence, position⟩ =
      plan.parserLeaf? index ⟨.predicate code number precedence, position⟩ := by
    intro precedence
    unfold Plan.leaf?
    cases plan.kind <;> rfl
  rw [shape]
  cases precedence with
  | some level => exact meets_atom (.refl before) rfl rfl
  | none =>
      simp only [predicateLeaf, meets_bind]
      exact (meets_currentRule ready.rule).mpr (meets_atom (.refl before) rfl rfl)

/-- An action of a lexer. Its index in the table does not matter for the trail. -/
theorem meets_actionLeaf {current : Construction} (grown : Grown before current [] [] [])
    (current_rule : before.rule = some index) {action : LexerAction} {sketch : Option Leaf}
    (same : sketch = some (.chain [.action index none false])) :
    Meets (actionLeaf plan action) current (DrawsLeaf before index sketch) bad := by
  simp only [actionLeaf, meets_bind]
  refine (meets_currentRule (grown.rule.trans current_rule)).mpr ?_
  simp only [actionIndex, meets_bind, meets_get]
  split
  · exact meets_atom grown rfl same
  · simp only [meets_bind, meets_modify, meets_pure]
    refine meets_atom ?_ rfl same
    exact grown.unmoved ⟨rfl, rfl, rfl, rfl, .refl _⟩

theorem meets_newActionNumber {current : Construction} {good : Nat → Construction → Prop}
    (grown : Grown before current [] [] [])
    (next : ∀ number later, Grown before later [] [] [] → good number later) :
    Meets newActionNumber current good bad := by
  simp only [newActionNumber, meets_bind, meets_get, meets_modify, meets_pure]
  exact next _ _ (grown.unmoved ⟨rfl, rfl, rfl, rfl, .refl _⟩)

theorem meets_actionElement (ready : Ready plan index before) {code : String} {number : Option Nat}
    {position : Option Position} :
    Meets (actionElement plan number) before
      (DrawsLeaf before index (plan.leaf? index ⟨.action code number, position⟩)) bad := by
  unfold Plan.leaf? actionElement
  simp only [meets_bind]
  refine (meets_currentRule ready.rule).mpr ?_
  cases plan.kind with
  | parser => exact meets_atom (.refl before) rfl rfl
  | lexer =>
      cases number with
      | some number => exact meets_actionLeaf (.refl before) ready.rule rfl
      | none =>
          simp only [meets_bind]
          exact meets_newActionNumber (.refl before) fun _ _ grown => meets_actionLeaf grown ready.rule rfl

theorem meets_inlineAction {current : Construction} (grown : Grown before current [] [] [])
    (current_rule : before.rule = some index) {code : String} {sketch : Option Leaf}
    (same : sketch = some (.chain [Plan.codeLabel index code])) :
    Meets (inlineAction plan code) current (DrawsLeaf before index sketch) bad := by
  unfold inlineAction
  unfold Plan.codeLabel at same
  split
  · rename_i isBlank
    rw [if_pos isBlank] at same
    exact meets_atom grown rfl same
  · rename_i notBlank
    rw [if_neg notBlank] at same
    simp only [meets_bind]
    refine (meets_currentRule (grown.rule.trans current_rule)).mpr ?_
    exact meets_newActionNumber grown fun _ _ grown => meets_actionLeaf grown current_rule same

/-- A command has been drawn, with the state in front of its transition if it may run something. -/
def DrawsCommand (before : Construction) (index : Nat) (sketch : Option Leaf) (result : Handle × Option StateId)
    (after : Construction) : Prop :=
  DrawsLeaf before index sketch result.1 after ∧
    (result.2 = some result.1.left ∨ sketch = some (.chain [.epsilon]))

theorem DrawsLeaf.marked {sketch : Option Leaf} {piece : Handle} {after : Construction}
    (draws : DrawsLeaf before index sketch piece after) :
    DrawsCommand before index sketch (piece, some piece.left) after :=
  ⟨draws, Or.inl rfl⟩

theorem meets_silentCommand {current : Construction} (grown : Grown before current [] [] [])
    {sketch : Option Leaf} (same : sketch = some (.chain [.epsilon])) :
    Meets (atom .epsilon) current (fun piece => DrawsCommand before index sketch (piece, none)) bad :=
  (meets_atom grown rfl same).weaken (fun _ _ draws => ⟨draws, Or.inr same⟩) fun _ => id

theorem meets_templateCommand {current : Construction} (grown : Grown before current [] [] [])
    (current_rule : before.rule = some index) {command : Command} {template : Template}
    {sketch : Option Leaf} (same : sketch = some (.chain [Plan.templateLabel index command template])) :
    Meets (templateCommand plan command template) current
      (fun result => DrawsCommand before index sketch result) bad := by
  unfold templateCommand
  unfold Plan.templateLabel at same
  cases takes : template.takesArgument <;> cases has : command.argument <;>
    simp only [takes, has] at same <;> simp only [meets_bind, meets_pure]
  · exact (meets_inlineAction grown current_rule same).weaken (fun _ _ => DrawsLeaf.marked) fun _ => id
  · exact grown.meets_report rfl fun _ grown => meets_silentCommand grown same
  · exact grown.meets_report rfl fun _ grown => meets_silentCommand grown same
  · exact (meets_inlineAction grown current_rule same).weaken (fun _ _ => DrawsLeaf.marked) fun _ => id

theorem meets_conflicts {position : Option Position}
    (conflicts : List (Problem × List String))
    (early : ∀ conflict ∈ conflicts, conflict.1.isClosing = false) :
    ∀ {current : Construction} {good : Unit → Construction → Prop}, Grown before current [] [] [] →
    (∀ later, Grown before later [] [] [] → good () later) →
    Meets (conflicts.forM fun conflict => report plan conflict.1 position conflict.2) current good bad := by
  induction conflicts with
  | nil =>
      intro current good grown next
      exact next _ grown
  | cons conflict rest ih =>
      intro current good grown next
      simp only [List.forM, meets_bind]
      refine grown.meets_report (early conflict (by simp)) fun _ reported => ?_
      exact ih (fun other member => early other (by simp [member])) reported next

theorem isClosing_commandConflicts {used : List String} {name : String} :
    ∀ conflict ∈ commandConflicts used name, conflict.1.isClosing = false := by
  intro conflict member
  unfold commandConflicts at member
  split at member
  · simp at member
  · rcases List.mem_append.mp member with repeated | clashing
    · split at repeated <;> simp at repeated
      rw [repeated]
      rfl
    · split at clashing <;> simp at clashing
      rw [clashing]
      rfl

theorem meets_command (ready : Ready plan index before) {written : Command} :
    Meets (command plan written) before
      (fun result => DrawsCommand before index ((plan.commandLabel? index written).map fun label => .chain [label])
        result)
      (· ∈ plan.commandFaults) := by
  unfold command Plan.commandLabel? Plan.commandFaults
  cases plan.kind with
  | parser => exact List.mem_singleton.mpr rfl
  | lexer =>
      simp only [lexerCommand, meets_bind, meets_get]
      refine meets_conflicts _ isClosing_commandConflicts (.refl before) fun _ reported => ?_
      simp only [meets_modify]
      have noted := reported.useCommands (before.usedCommands ++ [written.name])
      cases builtin? written.name with
      | some builtin =>
          simp only [meets_bind]
          refine meets_quiet noted quiet_builtinAction? ready.rule ?_ (by simp)
          intro action later answered grown
          cases action with
          | some action =>
              simp only [meets_bind, meets_pure]
              exact (meets_actionLeaf grown ready.rule (by simp [answered])).weaken (fun _ _ => DrawsLeaf.marked)
                fun _ => id
          | none =>
              simp only [meets_bind, meets_pure]
              exact meets_silentCommand grown (by simp [answered])
      | none =>
          cases plan.templates (templateName written.name) with
          | some template => exact meets_templateCommand noted ready.rule rfl
          | none =>
              simp only [meets_bind, meets_pure]
              exact noted.meets_report rfl fun _ grown => meets_silentCommand grown rfl

end Pieces

end Build

end GrammarNetwork
