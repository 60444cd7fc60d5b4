import GrammarNetwork.Proofs.Languages
import GrammarNetwork.Proofs.Ledgers

/-! Namings: a trail has the words of the piece of the syntax tree that it was built for, when the states that are
remembered for elements and commands run what these are to run. -/

namespace GrammarNetwork

mutual

theorem Trail.labels_erase : ∀ (trail : Trail), trail.erase.labels = trail.labels.map Label.erase
  | .done => rfl
  | .step _ label rest => by simp [Trail.erase, Trail.labels, rest.labels_erase]
  | .gap _ rest => by simp [Trail.erase, Trail.labels, rest.labels_erase]
  | .block _ _ _ ways rest => by simp [Trail.erase, Trail.labels, ways.labels_erase, rest.labels_erase]

theorem Ways.labels_erase : ∀ (ways : Ways), ways.erase.labels = ways.labels.map Label.erase
  | .none => rfl
  | .more way rest => by simp [Ways.erase, Ways.labels, way.labels_erase, rest.labels_erase]

end

theorem Label.isAction_erase (label : Label) : label.erase.isAction = label.isAction := by
  cases label <;> rfl

section Pieces

variable {trail : Trail} {vocabulary : IntervalSet} {meanings : Meanings}

/-- Where nothing runs, a trail has the words of its sketch. -/
theorem Trail.words_of_quiet (quiet : ∀ label ∈ trail.erase.labels, label.isAction = false) (names : Naming)
    (action : Option LexerAction) :
    trail.words vocabulary meanings names = trail.erase.words vocabulary meanings fun _ _ => action := by
  rw [Trail.words_erase]
  refine trail.words_congr vocabulary meanings names _ fun label listed runs => ?_
  rw [← label.isAction_erase, quiet _ (trail.labels_erase ▸ List.mem_map_of_mem listed)] at runs
  cases runs

theorem Trail.eq_single {label : Label} (erased : trail.erase = .chain [label]) :
    ∃ source own target last, trail = .step source own (.step target last .done) ∧ own.erase = label ∧
      last.passes = true := by
  match trail with
  | .done | .gap _ _ | .block _ _ _ _ _ => cases erased
  | .step source own rest =>
      obtain ⟨_, labelled, behind⟩ := Trail.step.inj erased
      match rest with
      | .done | .gap _ _ | .block _ _ _ _ _ => cases behind
      | .step target last tail =>
          obtain ⟨_, silent, ends⟩ := Trail.step.inj behind
          obtain rfl : tail = .done := by cases tail <;> first | rfl | cases ends
          refine ⟨source, own, target, last, rfl, labelled, ?_⟩
          rw [← last.passes_erase, silent]
          rfl

/-- A trail of one transition has the words of its label, with what runs at its first state. -/
theorem Trail.words_of_single {label : Label} {id : StateId} (erased : trail.erase = .chain [label])
    (first : trail.first? = some id) (names : Naming) :
    ∃ own, trail.words vocabulary meanings names = label.words vocabulary meanings (names id own) := by
  obtain ⟨source, own, target, last, rfl, rfl, passes⟩ := Trail.eq_single erased
  cases first
  refine ⟨own, ?_⟩
  rw [Trail.words, Trail.words, Trail.words, Label.words_of_passes passes, own.words_erase, mul_one, mul_one]

end Pieces

namespace Plan

variable {plan : Plan}

/-- What runs at the states that are remembered for these elements and commands is what they are to run. -/
def Named (plan : Plan) (construction : Construction) (items : List Item) (names : Naming)
    (acts : Item → Option LexerAction) : Prop :=
  ∀ item ∈ items, ∀ id, item.MarkedAt construction id → (plan.errand? item).isSome = true →
    ∀ label, names id label = acts item

/-- What has been built has the words of a piece of the syntax tree with these elements and commands. -/
def Means (plan : Plan) (construction : Construction) (items : List Item)
    (built : IntervalSet → Meanings → Naming → Language Letter)
    (tree : IntervalSet → Meanings → (Item → Option LexerAction) → Language Letter) : Prop :=
  ∀ vocabulary meanings names acts, plan.Named construction items names acts →
    built vocabulary meanings names = tree vocabulary meanings acts

section Growing

variable {before after : Construction} {items more : List Item} {names : Naming} {acts : Item → Option LexerAction}
  {built : IntervalSet → Meanings → Naming → Language Letter}
  {tree : IntervalSet → Meanings → (Item → Option LexerAction) → Language Letter}

theorem Named.mono (named : plan.Named after more names acts) (marks : before.KeepsMarks after)
    (subset : items ⊆ more) : plan.Named before items names acts :=
  fun item listed id marked => named item (subset listed) id (marked.mono marks)

theorem Means.mono (means : plan.Means before items built tree) (marks : before.KeepsMarks after)
    (subset : items ⊆ more) : plan.Means after more built tree :=
  fun vocabulary meanings names acts named => means vocabulary meanings names acts (named.mono marks subset)

end Growing

section Leaves

variable {index : Nat}

theorem quiet_chain {labels : List Label} (quiet : ∀ label ∈ labels, label.isAction = false) :
    ∀ label ∈ (Trail.chain labels).labels, label.isAction = false := by
  induction labels with
  | nil =>
      intro label listed
      cases List.mem_singleton.mp listed
      rfl
  | cons first rest ih =>
      rw [List.forall_mem_cons] at quiet
      exact List.forall_mem_cons.mpr ⟨quiet.1, ih quiet.2⟩

theorem quiet_single {label : Label} (quiet : label.isAction = false) :
    ∀ other ∈ (Leaf.chain [label]).trail.labels, other.isAction = false :=
  quiet_chain (List.forall_mem_singleton.mpr quiet)

theorem quiet_callLeaf {name : String} {precedence : Option Int} {leaf : Leaf}
    (found : plan.callLeaf? name precedence = some leaf) : ∀ label ∈ leaf.trail.labels, label.isAction = false := by
  obtain ⟨rule, _, rfl⟩ := Option.map_eq_some_iff.mp found
  exact quiet_single rfl

theorem runs_of_parserLeaf {site : Site} {element : Element} {leaf : Leaf}
    (found : plan.parserLeaf? index element = some leaf) :
    (∀ label ∈ leaf.trail.labels, label.isAction = false) ∨
      (∃ label, leaf = .chain [label]) ∧ (plan.errand? (.element site element)).isSome = true := by
  obtain ⟨form, position⟩ := element
  cases form with
  | action code declared =>
      cases found
      exact Or.inr ⟨⟨_, rfl⟩, rfl⟩
  | rule name precedence => exact Or.inl (quiet_callLeaf found)
  | predicate code number precedence =>
      cases precedence <;> cases found <;> exact Or.inl (quiet_single rfl)
  | set items inverted =>
      cases found
      exact Or.inl (quiet_single (by cases inverted <;> rfl))
  | charSet text => cases found
  | block body => cases found
  | _ =>
      cases found
      exact Or.inl (quiet_single rfl)

/-- What an element that is no block runs, it runs along its only transition. -/
theorem runs_of_leaf {site : Site} {element : Element} {leaf : Leaf} (found : plan.leaf? index element = some leaf) :
    (∀ label ∈ leaf.trail.labels, label.isAction = false) ∨
      (∃ label, leaf = .chain [label]) ∧ (plan.errand? (.element site element)).isSome = true := by
  unfold leaf? at found
  split at found
  · exact runs_of_parserLeaf found
  obtain ⟨form, position⟩ := element
  cases form with
  | token name =>
      rw [lexerLeaf?] at found
      split at found
      · cases found
        exact Or.inl (quiet_single rfl)
      · exact Or.inl (quiet_callLeaf found)
  | literal text =>
      cases found
      refine Or.inl (quiet_chain (List.forall_mem_map.mpr fun character _ => ?_))
      exact Label.not_isAction_of_reads (Build.reads_rangeSymbol ..)
  | charSet text =>
      obtain ⟨set, _, rfl⟩ := Option.map_eq_some_iff.mp found
      exact Or.inl (quiet_single rfl)
  | range first last =>
      rw [lexerLeaf?] at found
      split at found
      · cases found
        exact Or.inl (quiet_single (Label.not_isAction_of_reads (Build.reads_rangeSymbol ..)))
      · cases found
        exact Or.inl (quiet_chain (List.forall_mem_nil _))
  | set items inverted =>
      obtain ⟨set, _, rfl⟩ := Option.map_eq_some_iff.mp found
      exact Or.inl (quiet_single (Label.not_isAction_of_reads (Build.reads_lexerSetLabel ..)))
  | _ => exact @runs_of_parserLeaf plan index site _ leaf found

theorem isSome_errand?_of_isAction {command : Command} {template : Template}
    (runs : (templateLabel index command template).isAction = true) :
    (template.errand? command.argument).isSome = true := by
  unfold templateLabel codeLabel at runs
  cases takes : template.takesArgument <;> cases given : command.argument <;>
    simp only [takes, given] at runs <;> try cases runs
  all_goals
    split at runs
    · cases runs
    · rename_i code
      simp [Template.errand?, takes, code]

/-- A command whose transition runs something has an errand. -/
theorem isSome_commandErrand?_of_isAction {command : Command} {label : Label}
    (found : plan.commandLabel? index command = some label) (runs : label.isAction = true) :
    (plan.commandErrand? command).isSome = true := by
  unfold commandLabel? at found
  unfold commandErrand?
  cases kind : plan.kind with
  | parser => simp [kind] at found
  | lexer =>
      cases known : builtin? command.name with
      | some builtin =>
          simp only [kind, known, Build.gives_builtinAction?.answer, Option.map_some, Option.some.injEq] at found ⊢
          cases action : builtin.action? plan.grammar command.argument with
          | none =>
              rw [← found, action] at runs
              cases runs
          | some action => rfl
      | none =>
          cases rendered : plan.templates (templateName command.name) with
          | none =>
              simp only [kind, known, rendered, Option.some.injEq] at found
              rw [← found] at runs
              cases runs
          | some template =>
              simp only [kind, known, rendered, Option.some.injEq] at found
              exact isSome_errand?_of_isAction (found ▸ runs)

theorem elementWords_of_leaf {vocabulary : IntervalSet} {meanings : Meanings} {acts : Item → Option LexerAction}
    {site : Site} {element : Element} {leaf : Leaf} (found : plan.leaf? site.rule element = some leaf) :
    plan.elementWords vocabulary meanings acts site element =
      leaf.words vocabulary meanings (acts (.element site element)) := by
  obtain ⟨form, position⟩ := element
  cases form with
  | block body =>
      unfold leaf? at found
      cases kind : plan.kind <;> rw [kind] at found <;> cases found
  | _ => simp only [elementWords, found, Option.map_some, Option.getD_some]

end Leaves

/-- The trail of an element has its words, when a state has been remembered for it. -/
def MeansElement (plan : Plan) (construction : Construction) (site : Site) (element : Element) (mark : StateId)
    (trail : Trail) : Prop :=
  plan.Means ((Item.element site element).mark mark construction) (.element site element :: innerPlaces site element)
    trail.words fun vocabulary meanings acts => plan.elementWords vocabulary meanings acts site element

/-- Trails one after the other have the words of the elements. -/
def MeansList (plan : Plan) (construction : Construction) (site : Site) (alternative number : Nat)
    (elements : List Element) (trails : List Trail) : Prop :=
  plan.Means construction (listPlaces site alternative number elements)
    (fun vocabulary meanings names => (trails.map (Trail.words vocabulary meanings names)).prod)
    fun vocabulary meanings acts => plan.listWords vocabulary meanings acts site alternative number elements

/-- Trails one after the other have the words of the commands. -/
def MeansCommands (plan : Plan) (construction : Construction) (site : Site) (alternative number : Nat)
    (written : List Command) (trails : List Trail) : Prop :=
  plan.Means construction (commandItems site alternative number written)
    (fun vocabulary meanings names => (trails.map (Trail.words vocabulary meanings names)).prod)
    fun vocabulary meanings acts => plan.commandWords vocabulary meanings acts site alternative number written

/-- A trail has the words of these trails one after the other and of the commands behind them. -/
def MeansAssembled (plan : Plan) (construction : Construction) (site : Site) (number : Nat) (written : List Command)
    (trails : List Trail) (trail : Trail) : Prop :=
  ∀ vocabulary meanings names acts, plan.Named construction (commandItems site number 0 written) names acts →
    trail.words vocabulary meanings names = (trails.map (Trail.words vocabulary meanings names)).prod *
      plan.commandWords vocabulary meanings acts site number 0 written

/-- Trails next to each other have the words of the alternatives. -/
def MeansAlternatives (plan : Plan) (construction : Construction) (site : Site) (number : Nat)
    (alternatives : List Alternative) (trails : List Trail) : Prop :=
  plan.Means construction (alternativePlaces site number alternatives)
    (fun vocabulary meanings names => (trails.map (Trail.words vocabulary meanings names)).sum)
    fun vocabulary meanings acts => plan.alternativeWords vocabulary meanings acts site number alternatives

/-- The trail of a block has its words. -/
def MeansBlock (plan : Plan) (construction : Construction) (site : Site) (body : Block) (trail : Trail) : Prop :=
  plan.Means construction (alternativePlaces site 0 body.alternatives)
    trail.words fun vocabulary meanings acts =>
      blockWords body.suffix (plan.alternativeWords vocabulary meanings acts site 0 body.alternatives)

section Composition

variable {before middle after : Construction} {site : Site} {alternative number : Nat} {trail : Trail}
  {trails : List Trail} {mark : StateId}

theorem MeansElement.leaf {element : Element} {leaf : Leaf} (found : plan.leaf? site.rule element = some leaf)
    (erased : trail.erase = leaf.trail) (first : trail.first? = some mark) :
    plan.MeansElement after site element mark trail := by
  intro vocabulary meanings names acts named
  beta_reduce
  rw [elementWords_of_leaf found, ← Leaf.words_trail]
  rcases runs_of_leaf found with quiet | ⟨⟨label, rfl⟩, runs⟩
  · rw [← erased] at quiet ⊢
    exact Trail.words_of_quiet quiet names _
  · obtain ⟨own, same⟩ := Trail.words_of_single erased first names
    have marked : (Item.element site element).MarkedAt ((Item.element site element).mark mark after) mark :=
      List.mem_cons_self
    have told := named _ List.mem_cons_self mark marked runs own
    rw [same, told, Leaf.words_trail]
    simp [Leaf.words]

theorem MeansElement.block {body : Block} {position : Option Position} (means : plan.MeansBlock after site body trail) :
    plan.MeansElement after site ⟨.block body, position⟩ mark trail := by
  obtain ⟨alternatives, suffix⟩ := body
  intro vocabulary meanings names acts named
  have marks := (Item.element site ⟨.block ⟨alternatives, suffix⟩, position⟩).keepsMarks_mark mark after
  have same := means vocabulary meanings names acts (named.mono marks (List.subset_cons_self _ _))
  beta_reduce
  rw [elementWords]
  exact same

theorem MeansList.nil (construction : Construction) : plan.MeansList construction site alternative number [] [] :=
  fun _ _ _ _ _ => rfl

/-- One more element in front, for which a state has been remembered. -/
theorem MeansList.cons {first : Element} {rest : List Element}
    (inner : plan.MeansElement middle (site.child alternative number) first mark trail)
    (marks : ((Item.element (site.child alternative number) first).mark mark middle).KeepsMarks after)
    (behind : plan.MeansList after site alternative (number + 1) rest trails) :
    plan.MeansList after site alternative number (first :: rest) (trail :: trails) := by
  intro vocabulary meanings names acts named
  rw [listPlaces] at named
  have own : .element (site.child alternative number) first :: innerPlaces (site.child alternative number) first ⊆
      innerPlaces (site.child alternative number) first ++
        .element (site.child alternative number) first :: listPlaces site alternative (number + 1) rest := by
    simp
  have later : listPlaces site alternative (number + 1) rest ⊆
      innerPlaces (site.child alternative number) first ++
        .element (site.child alternative number) first :: listPlaces site alternative (number + 1) rest := by
    simp
  have head : trail.words vocabulary meanings names = plan.elementWords vocabulary meanings acts _ first :=
    inner vocabulary meanings names acts (named.mono marks own)
  have tail : (trails.map (Trail.words vocabulary meanings names)).prod =
      plan.listWords vocabulary meanings acts site alternative (number + 1) rest :=
    behind vocabulary meanings names acts (named.mono (.refl after) later)
  beta_reduce
  rw [List.map_cons, List.prod_cons, head, tail, listWords]

theorem MeansCommands.nil (construction : Construction) :
    plan.MeansCommands construction site alternative number [] [] :=
  fun _ _ _ _ _ => rfl

/-- One more command in front, for which a state has been remembered if it may run something. -/
theorem MeansCommands.cons {first : Command} {rest : List Command} {label : Label}
    (labelled : plan.commandLabel? site.rule first = some label) (erased : trail.erase = .chain [label])
    (begins : trail.first? = some mark)
    (marked : label.isAction = true → (site.child alternative number, mark) ∈ after.commandStates)
    (behind : plan.MeansCommands after site alternative (number + 1) rest trails) :
    plan.MeansCommands after site alternative number (first :: rest) (trail :: trails) := by
  intro vocabulary meanings names acts named
  rw [commandItems] at named
  have tail : (trails.map (Trail.words vocabulary meanings names)).prod =
      plan.commandWords vocabulary meanings acts site alternative (number + 1) rest :=
    behind vocabulary meanings names acts (named.mono (.refl after) (List.subset_cons_self _ _))
  have head : trail.words vocabulary meanings names =
      label.words vocabulary meanings (acts (.command (site.child alternative number) first)) := by
    obtain ⟨own, same⟩ := Trail.words_of_single erased begins names
    rw [same]
    exact Label.words_congr fun runs =>
      named _ List.mem_cons_self mark (marked runs) (isSome_commandErrand?_of_isAction labelled runs) own
  beta_reduce
  rw [List.map_cons, List.prod_cons, head, tail, commandWords, labelled, Option.map_some, Option.getD_some]

/-- Without commands a trail has the words of the trails that are joined in it. -/
theorem MeansAssembled.joinAll (opens : ∀ trail ∈ trails, trail.IsOpen) :
    plan.MeansAssembled after site number [] trails (Trail.joinAll trails) := by
  intro vocabulary meanings names acts _
  rw [Trail.words_joinAll vocabulary meanings names opens, commandWords, mul_one]

/-- A trail along which nothing runs or is read stands for no elements. -/
theorem MeansAssembled.empty (erased : trail.erase = .chain [.epsilon]) :
    plan.MeansAssembled after site number [] [] trail := by
  intro vocabulary meanings names acts _
  have quiet : ∀ label ∈ trail.erase.labels, label.isAction = false := by
    rw [erased]
    exact quiet_chain (List.forall_mem_singleton.mpr rfl)
  have silent : Label.words vocabulary meanings none .epsilon = 1 := Label.words_of_passes rfl
  rw [Trail.words_of_quiet quiet names none, erased, Trail.words_chain, commandWords]
  simp [silent]

theorem MeansAssembled.mono {written : List Command}
    (means : plan.MeansAssembled before site number written trails trail) (marks : before.KeepsMarks after) :
    plan.MeansAssembled after site number written trails trail :=
  fun vocabulary meanings names acts named =>
    means vocabulary meanings names acts (named.mono marks (List.Subset.refl _))

/-- Commands come behind a trail without them. -/
theorem MeansAssembled.append {written : List Command} {commands : List Trail} {last : Construction}
    (first : plan.MeansAssembled before site number [] trails trail) (opens : ∀ trail ∈ commands, trail.IsOpen)
    (behind : plan.MeansCommands after site number 0 written commands) (marks : after.KeepsMarks last) :
    plan.MeansAssembled last site number written trails (trail.append (Trail.joinAll commands)) := by
  intro vocabulary meanings names acts named
  have front := first vocabulary meanings names acts fun _ listed => absurd listed List.not_mem_nil
  have back : (commands.map (Trail.words vocabulary meanings names)).prod =
      plan.commandWords vocabulary meanings acts site number 0 written :=
    behind vocabulary meanings names acts (named.mono marks (List.Subset.refl _))
  rw [Trail.words_append vocabulary meanings names, Trail.words_joinAll vocabulary meanings names opens, front, back,
    commandWords, mul_one]

theorem MeansAlternatives.nil (construction : Construction) : plan.MeansAlternatives construction site number [] [] :=
  fun _ _ _ _ _ => rfl

/-- One more alternative in front, the trails of whose elements have been put together with its commands. -/
theorem MeansAlternatives.cons {elements : List Element} {written : List Command} {rest : List Alternative}
    {pieces : List Trail} (list : plan.MeansList middle site number 0 elements pieces) (marks : middle.KeepsMarks after)
    (assembled : plan.MeansAssembled after site number written pieces trail)
    (behind : plan.MeansAlternatives after site (number + 1) rest trails) :
    plan.MeansAlternatives after site number (⟨elements, written⟩ :: rest) (trail :: trails) := by
  intro vocabulary meanings names acts named
  rw [alternativePlaces] at named
  have matched : (pieces.map (Trail.words vocabulary meanings names)).prod =
      plan.listWords vocabulary meanings acts site number 0 elements :=
    list vocabulary meanings names acts (named.mono marks (List.subset_append_left _ _))
  have whole := assembled vocabulary meanings names acts (named.mono (.refl after)
    (List.subset_append_of_subset_right _ (List.subset_append_left _ _)))
  have later : (trails.map (Trail.words vocabulary meanings names)).sum =
      plan.alternativeWords vocabulary meanings acts site (number + 1) rest :=
    behind vocabulary meanings names acts (named.mono (.refl after)
      (List.subset_append_of_subset_right _ (List.subset_append_right _ _)))
  beta_reduce
  rw [List.map_cons, List.sum_cons, whole, matched, later, alternativeWords]

/-- The alternatives of a block have been put together. -/
theorem MeansAlternatives.block {body : Block} (inner : plan.MeansAlternatives middle site 0 body.alternatives trails)
    (marks : middle.KeepsMarks after)
    (words : ∀ vocabulary meanings names, trail.words vocabulary meanings names =
      blockWords body.suffix (trails.map (Trail.words vocabulary meanings names)).sum) :
    plan.MeansBlock after site body trail := by
  intro vocabulary meanings names acts named
  beta_reduce
  rw [words]
  exact congrArg _ (inner.mono marks (List.Subset.refl _) vocabulary meanings names acts named)

end Composition

end Plan

end GrammarNetwork
