import GrammarNetwork.Proofs.Namings
import GrammarNetwork.Proofs.Plots
import GrammarNetwork.Proofs.Vetting

/-! Elements, alternatives and rule bodies: what the construction builds for them is the sketch of the syntax tree, with
numbers for its states and decisions, and it has the words of the tree when its states run what the tree says. The
state that it remembers for an element stays if it does in the plot of the tree, and always unless the element and
everything behind it in its alternative only lead on. -/

namespace GrammarNetwork

/-- A state is remembered for each of these elements, and it is one of `core` unless the element is one of `tails`. -/
def Stamped (places tails : List Item) (core : List StateId) (construction : Construction) : Prop :=
  ∀ site element, .element site element ∈ places → ∃ id, (site, id) ∈ construction.elementStates ∧
    (.element site element ∈ tails ∨ id ∈ core)

namespace Stamped

variable {places others tails more : List Item} {core wider : List StateId} {before after : Construction}

theorem none (tails : List Item) (core : List StateId) (construction : Construction) :
    Stamped [] tails core construction := by
  intro _ _ listed
  cases listed

/-- What is remembered stays remembered, and more states may stay. -/
theorem later (stamped : Stamped places tails core before) (ends : tails ⊆ more) (within : core ⊆ wider)
    (remembered : before.elementStates ⊆ after.elementStates) : Stamped places more wider after := by
  intro site element listed
  obtain ⟨id, stamp, stays⟩ := stamped site element listed
  exact ⟨id, remembered stamp, stays.imp (fun member => ends member) fun member => within member⟩

theorem append (first : Stamped places tails core after) (second : Stamped others tails core after) :
    Stamped (places ++ others) tails core after := by
  intro site element listed
  exact (List.mem_append.mp listed).elim (first site element) (second site element)

/-- No state is asked for of commands. -/
theorem commands (site : Site) (alternative : Nat) (written : List Command) :
    Stamped (commandItems site alternative 0 written) tails core after := by
  intro _ _ listed
  obtain ⟨_, _, _, same⟩ := mem_commandItems listed
  cases same

end Stamped

theorem Remembers.keepsMarks {owners : List Owner} {before after : Construction}
    (remembers : Remembers owners before after) : before.KeepsMarks after :=
  ⟨remembers.elements, remembers.commands⟩

/-- The construction has grown by a trail for each piece. -/
structure BuiltAll (before after : Construction) (index : Nat) (trails : List Trail)
    (pieces : List Handle) : Prop where
  grown : Grown before after (Trail.spread before.network.ruleStarts before.rule trails)
    (trails.flatMap (Trail.checks Frame.isLoop index)) (trails.flatMap (Trail.checks Frame.isOptional index))
  fits : List.Forall₂ (Trail.Fits before.network.ruleStarts.size) trails pieces

section Lists

variable {before middle after : Construction} {index : Nat} {trail : Trail} {trails : List Trail}
  {piece : Handle} {pieces : List Handle}

theorem BuiltAll.nil (before : Construction) (index : Nat) : BuiltAll before before index [] [] :=
  ⟨.refl before, .nil⟩

theorem BuiltAll.cons (first : Built before middle index trail piece)
    (rest : BuiltAll middle after index trails pieces) :
    BuiltAll before after index (trail :: trails) (piece :: pieces) where
  grown := by
    have later := rest.grown
    rw [first.grown.ruleStarts, first.grown.rule] at later
    simpa using first.grown.trans later
  fits := by
    have later := rest.fits
    rw [first.grown.ruleStarts] at later
    exact .cons first.fits later

theorem Ready.flawed {plan : Plan} (ready : Ready plan index before) (count : Nat) :
    Ready plan index (before.flawed count) :=
  ⟨ready.rule, ready.starts, ready.stops, ready.moored⟩

theorem Ready.built {plan : Plan} {count : Nat} (ready : Ready plan index before)
    (built : Built (before.flawed count) after index trail piece) : Ready plan index after :=
  (ready.flawed count).grown built.grown

theorem isOpen_of_fits {count : Nat} (fits : List.Forall₂ (Trail.Fits count) trails pieces) :
    ∀ trail ∈ trails, trail.IsOpen := by
  induction fits with
  | nil => simp
  | cons first _ ih => exact List.forall_mem_cons.mpr ⟨first.opens, ih⟩

theorem Trail.checks_joinAll (kind : Frame → Bool) (index : Nat) : ∀ (trails : List Trail),
    (Trail.joinAll trails).checks kind index = trails.flatMap (Trail.checks kind index)
  | [] => rfl
  | [trail] => by simp [Trail.joinAll]
  | trail :: next :: rest => by
      have later := Trail.checks_joinAll kind index (next :: rest)
      rw [List.flatMap_cons, ← later, Trail.joinAll]
      simp [Trail.checks, Trail.blocks_join]

end Lists

namespace Build

variable {plan : Plan} {index : Nat} {before middle : Construction}

/-- The construction has grown by a trail that looks as sketched and has the joints of the blocks that branch, and
its gaps have been reported. -/
structure Drawn (before after : Construction) (index : Nat) (trail : Trail) (sketch : Option Trail)
    (assemblies : List Assembly) (piece : Handle) : Prop where
  built : Built (before.flawed trail.gaps) after index trail piece
  shape : sketch = some trail.erase
  framed : Framed trail.joints assemblies

/-- The trail of an element has been drawn, with states for what is inside the element and for itself. What is said
about its words holds. -/
def DrawsElement (before : Construction) (index : Nat) (sketch : Option Trail)
    (plot : (Site → Bool) → Option Trail) (assemblies : List Assembly) (places tails : List Item)
    (means : StateId → Trail → Construction → Prop) (result : Handle × StateId) (after : Construction) : Prop :=
  ∃ trail, Drawn before after index trail sketch assemblies result.1 ∧ Stamped places tails (trail.core false) after ∧
    result.2 ∈ trail.opening ∧ (before.Backed → Plots before after plot fun marked => trail.paint marked) ∧
    means result.2 trail after

/-- The construction has grown by trails that look as sketched and have the joints of the blocks that branch, and
their gaps have been reported. What is said about the states that are remembered and about their words holds. -/
def DrawsAll (before : Construction) (index : Nat) (sketches : Option (List Trail)) (assemblies : List Assembly)
    (stamps : List Trail → Construction → Prop) (pieces : List Handle) (after : Construction) : Prop :=
  ∃ trails, BuiltAll (before.flawed (Ways.ofList trails).gaps) after index trails pieces ∧
    sketches = some (trails.map Trail.erase) ∧ Framed (trails.flatMap Trail.joints) assemblies ∧ stamps trails after

theorem meets_nil {stamps : List Trail → Construction → Prop} {bad : Failure → Prop} (index : Nat)
    (stamped : stamps [] before) :
    Meets (pure []) before (DrawsAll before index (some []) [] stamps) bad :=
  ⟨[], .nil before index, rfl, .nil, stamped⟩

/-- The trail of an alternative has been drawn around those of its elements, as it is sketched, also when some older
states are marked. What stays of the elements stays in it, and it has their words. -/
structure Assembled (plan : Plan) (before current after : Construction) (index : Nat) (site : Site) (number : Nat)
    (trails : List Trail) (written : List Command) (assemblies : List Assembly) (trail : Trail) (piece : Handle) :
    Prop where
  built : Built (before.flawed trail.gaps) after index trail piece
  painted : ∀ marked : StateId → Bool, (∀ id, current.network.nextId ≤ id → marked id = false) →
    plan.assembleSketch index (trails.map (Trail.paint marked)) written = some (trail.paint marked)
  framed : Framed trail.joints assemblies
  cores : (Trail.joinAll trails).core (!plan.runsNothing written) ⊆ trail.core false
  means : site.rule = index → plan.MeansAssembled after site number written trails trail

theorem Assembled.drawn {current after : Construction} {site : Site} {number : Nat} {trails : List Trail}
    {written : List Command} {assemblies : List Assembly} {trail : Trail} {piece : Handle}
    (assembled : Assembled plan before current after index site number trails written assemblies trail piece) :
    Drawn before after index trail (plan.assembleSketch index (trails.map Trail.erase) written) assemblies piece where
  built := assembled.built
  shape := by
    have plain := assembled.painted (fun _ => false) fun _ _ => rfl
    rwa [Trail.paint_none, funext Trail.paint_none] at plain
  framed := assembled.framed

/-- States are remembered for the elements of an alternative with these commands, and they stay where the trails of the
elements are joined. -/
def StampedList (plan : Plan) (site : Site) (alternative number : Nat) (elements : List Element)
    (written : List Command) (trails : List Trail) : Construction → Prop :=
  Stamped (listPlaces site alternative number elements) (plan.listTails site alternative written number elements)
    ((Trail.joinAll trails).core !plan.runsNothing written)

/-- Elements whose trails only lead on one after the other do so by their forms. -/
theorem allLeadOn_of_joinAll {first : Element} {rest : List Element} {trail : Trail} {trails : List Trail}
    (opening : trail.IsOpen) (drawn : plan.sketch index first = some trail.erase)
    (opens : ∀ trail ∈ trails, trail.IsOpen) (sketched : plan.sketchList index rest = some (trails.map Trail.erase))
    (idle : (Trail.joinAll (trail :: trails)).idle = true) : plan.allLeadOn (first :: rest) = true := by
  rw [Trail.idle_joinAll (List.forall_mem_cons.mpr ⟨opening, opens⟩), List.all_cons, Bool.and_eq_true] at idle
  have erased : (trails.map Trail.erase).all Trail.idle = true := by
    simpa [List.all_map, Function.comp_def, Trail.idle_erase] using idle.2
  rw [Plan.allLeadOn, Plan.leadsOn_of_sketch drawn (trail.idle_erase.trans idle.1),
    Plan.allLeadOn_of_sketchList sketched erased]
  rfl

/-- One more element in front. Its state stays unless it only leads on, as does everything behind it. -/
theorem StampedList.cons {site : Site} {alternative number : Nat} {first : Element} {rest : List Element}
    {written : List Command} {trail : Trail} {trails : List Trail} {mark : StateId} {after : Construction}
    (behind : StampedList plan site alternative (number + 1) rest written trails after) (opening : trail.IsOpen)
    (drawn : plan.sketch index first = some trail.erase)
    (inner : Stamped (innerPlaces (site.child alternative number) first)
      (plan.innerTails (site.child alternative number) first) (trail.core false) middle)
    (begins : mark ∈ trail.opening)
    (sketched : plan.sketchList index rest = some (trails.map Trail.erase)) (opens : ∀ trail ∈ trails, trail.IsOpen)
    (remembered : ((site.child alternative number, mark) :: middle.elementStates) ⊆ after.elementStates) :
    StampedList plan site alternative number (first :: rest) written (trail :: trails) after := by
  have head := Trail.core_joinAll_head opening trails !plan.runsNothing written
  rw [StampedList, listPlaces, Plan.listTails]
  refine (inner.later (List.subset_append_left _ _) head
    (List.Subset.trans (List.subset_cons_self _ _) remembered)).append ?_
  rw [← List.singleton_append]
  refine Stamped.append ?_ (behind.later ?_ (Trail.core_joinAll_tail trail trails _) (List.Subset.refl _))
  · intro _ _ listed
    cases List.mem_singleton.mp listed
    refine ⟨mark, remembered List.mem_cons_self, ?_⟩
    rcases Trail.core_of_opening begins with kept | front
    · exact Or.inr (head kept)
    · by_cases works : (!plan.runsNothing written) = true ∨ (Trail.joinAll (trail :: trails)).idle = false
      · exact Or.inr (Trail.first?_mem_core (Trail.first?_joinAll front trails) works)
      · rw [not_or, Bool.not_eq_true, Bool.not_eq_false', Bool.not_eq_false] at works
        have leads := allLeadOn_of_joinAll opening drawn opens sketched works.2
        left
        simp [leads, works.1]
  · intro _ listed
    simp [listed]

/-- There is no joint in a trail that is sketched without one. -/
theorem framed_nil {trail sketch : Trail} (erased : trail.erase = sketch) (plain : sketch.joints = []) :
    Framed trail.joints [] := by
  have none : trail.joints.length = 0 := by rw [← Trail.length_joints_erase, erased, plain, List.length_nil]
  rw [List.length_eq_zero_iff.mp none]
  exact .nil

theorem meets_markElement {site : Site} {id : StateId} {bad : Failure → Prop}
    {good : Unit → Construction → Prop} : Meets (markElement site id) before good bad ↔
      good () { before with elementStates := (site, id) :: before.elementStates } := Iff.rfl

theorem meets_markCommand {site : Site} {id : StateId} {bad : Failure → Prop}
    {good : Unit → Construction → Prop} : Meets (markCommand site id) before good bad ↔
      good () { before with commandStates := (site, id) :: before.commandStates } := Iff.rfl

theorem meets_cons {rest : Build (List Handle)} {sketch : Option Trail} {sketches : Option (List Trail)}
    {trail : Trail} {piece : Handle} {first others : List Assembly} {all more : List Trail → Construction → Prop}
    {written : List Command} {owners : List Owner} {bad : Failure → Prop}
    (drawn : Drawn before middle index trail sketch first piece)
    (later : Meets rest middle (DrawsAll middle index sketches others more) bad)
    (vets : Vets plan written rest owners)
    (stamps : ∀ trails after, sketches = some (trails.map Trail.erase) → (∀ trail ∈ trails, trail.IsOpen) →
      middle.KeepsMarks after → more trails after → all (trail :: trails) after) :
    Meets (do let pieces ← rest; return piece :: pieces) middle
      (DrawsAll before index (do let trail ← sketch; let trails ← sketches; return trail :: trails)
        (first ++ others) all) bad := by
  simp only [meets_bind, meets_pure]
  refine (later.both (vets middle)).weaken ?_ fun _ admitted => admitted
  rintro pieces after ⟨⟨trails, behind, drawnAll, framedAll, stamped⟩, vetted⟩
  have both := BuiltAll.cons (drawn.built.flawed _) behind
  rw [Construction.flawed_flawed] at both
  exact ⟨trail :: trails, both, by simp [drawn.shape, drawnAll], drawn.framed.append framedAll,
    stamps trails after drawnAll (isOpen_of_fits behind.fits) vetted.marks.keepsMarks stamped⟩

theorem meets_commands (site : Site) (alternative : Nat) (written : List Command) :
    ∀ {before : Construction} {number : Nat}, Ready plan index before →
    Meets (commands plan site alternative number written) before
      (DrawsAll before index (plan.sketchCommands index written) [] fun trails after =>
        site.rule = index → plan.MeansCommands after site alternative number written trails)
      (· ∈ written.flatMap fun _ => plan.commandFaults) := by
  induction written with
  | nil =>
      intro before number _
      exact meets_nil index fun _ => .nil before
  | cons first rest ih =>
      intro before number ready
      simp only [commands, meets_bind, Plan.sketchCommands, List.flatMap_cons]
      -- The commands behind may fail with their own faults, whether or not a state is marked for the first.
      have later : ∀ {before : Construction} {number : Nat}, Ready plan index before →
          Meets (commands plan site alternative number rest) before
            (DrawsAll before index (plan.sketchCommands index rest) [] fun trails after =>
              site.rule = index → plan.MeansCommands after site alternative number rest trails)
            (· ∈ plan.commandFaults ++ rest.flatMap fun _ => plan.commandFaults) := fun ready =>
        (ih ready).weaken (fun _ _ done => done) fun _ listed => List.mem_append_right _ listed
      refine (meets_command ready).weaken ?_ fun _ listed => List.mem_append_left _ listed
      rintro ⟨piece, mark⟩ middle ⟨⟨trail, built, drawn⟩, own⟩
      rw [Option.map_map] at drawn
      obtain ⟨label, labelled, erased⟩ := Option.map_eq_some_iff.mp drawn
      have framed : Framed trail.joints [] := framed_nil erased.symm rfl
      have marked : label.isAction = true → mark = some piece.left := by
        intro runs
        refine own.resolve_right fun silent => ?_
        rw [labelled] at silent
        cases silent
        cases runs
      cases mark with
      | some state =>
          refine meets_bind.mpr (meets_markCommand.mpr ?_)
          have same : Grown.Unmoved middle
              { middle with commandStates := (site.child alternative number, state) :: middle.commandStates } :=
            ⟨rfl, rfl, rfl, rfl, .refl _⟩
          have moved := built.unmoved same
          refine meets_cons ⟨moved, drawn, framed⟩ (later (ready.built moved)) (vets_commands rest)
            fun trails after _ _ marks behind inside => ?_
          subst inside
          refine .cons labelled erased.symm built.fits.first (fun runs => ?_) (behind rfl)
          obtain rfl : state = piece.left := Option.some.inj (marked runs)
          exact marks.commands List.mem_cons_self
      | none =>
          refine meets_cons ⟨built, drawn, framed⟩ (later (ready.built built)) (vets_commands rest)
            fun trails after _ _ _ behind inside => ?_
          subst inside
          refine .cons labelled erased.symm built.fits.first (fun runs => ?_) (behind rfl)
          cases marked runs

theorem meets_sequence_built {current : Construction} {bad : Failure → Prop}
    (moored : before.network.Moored before.rule) {trails : List Trail} {pieces : List Handle}
    (built : BuiltAll before current index trails pieces) (some : pieces ≠ []) :
    Meets (sequence plan pieces) current (fun piece after =>
      Built before after index (Trail.joinAll trails) piece) bad := by
  have grown := built.grown
  rw [← List.nil_append (Trail.spread _ _ _)] at grown
  refine (meets_sequence moored built.fits some grown).weaken ?_ fun _ admitted => admitted
  rintro piece after ⟨joined, fits⟩
  refine ⟨?_, fits⟩
  rw [Trail.checks_joinAll, Trail.checks_joinAll]
  exact joined

/-- The elements of an alternative, or a transition that consumes nothing if there are none, and what is
done with them. -/
theorem meets_body {α : Type} {current : Construction} {bad : Failure → Prop}
    (ready : Ready plan index before) (site : Site) (number : Nat) {trails : List Trail} {pieces : List Handle}
    (built : BuiltAll (before.flawed (Ways.ofList trails).gaps) current index trails pieces)
    {assemblies : List Assembly} (framed : Framed (trails.flatMap Trail.joints) assemblies)
    {next : Handle → Build α} {good : α → Construction → Prop}
    (continues : ∀ piece after trail, Assembled plan before current after index site number trails [] assemblies trail
        piece →
      current.network.nextId ≤ after.network.nextId →
      (∀ works, (Trail.joinAll trails).core works ⊆ trail.core works) → Meets (next piece) after good bad) :
    Meets (if pieces.isEmpty then atom .epsilon >>= next else sequence plan pieces >>= next) current
      good bad := by
  obtain ⟨grown, fits⟩ := built
  cases fits with
  | nil =>
      have single : Meets (atom .epsilon) current (DrawsLeaf current index (some (.chain [.epsilon]))) bad :=
        meets_atom (.refl current) rfl rfl
      refine meets_bind.mpr (single.weaken ?_ fun _ admitted => admitted)
      rintro piece after ⟨trail, built, drawn⟩
      have erased := Option.some.inj drawn
      have none : (Trail.joinAll []).core (!plan.runsNothing []) ⊆ trail.core false := List.nil_subset _
      refine continues piece after trail
        ⟨built.idle (grown.flawed _), fun marked fresh => ?_, ?_, none, fun _ => .empty erased.symm⟩
        built.grown.size fun _ => List.nil_subset _
      · rw [Trail.paint_eq_erase fun id member => fresh id (built.nextId_le member), ← erased]
        rfl
      · simpa using framed.append (framed_nil erased.symm rfl)
  | cons first rest =>
      have built := BuiltAll.mk grown (.cons first rest)
      have opens := isOpen_of_fits built.fits
      refine meets_bind.mpr (((meets_sequence_built (ready.flawed _).moored built (by simp)).both
        ((vets_sequence : Vets plan [] _) current)).weaken ?_ fun _ admitted => admitted)
      rintro piece after ⟨built, vetted⟩
      rw [← Trail.gaps_joinAll] at built
      rw [← Trail.joints_joinAll] at framed
      refine continues piece after _ ⟨built, fun marked _ => ?_, framed, ?_, fun _ => .joinAll opens⟩
        vetted.tables.size fun _ => List.Subset.refl _
      · rw [Trail.paint_joinAll]
        rfl
      · exact List.Subset.refl _

/-- A piece is led on to the next one, and its end stays. -/
theorem meets_append {after : Construction} {bad : Failure → Prop} {trail next : Trail}
    {piece following : Handle} (first : Built before middle index trail piece)
    (second : Built middle after index next following) :
    Meets (epsilon piece.right following.left) after (fun _ later =>
      Built before later index (trail.append next) ⟨piece.left, following.right⟩) bad := by
  have later := second.grown
  have fits := second.fits
  rw [first.grown.ruleStarts, first.grown.rule] at later
  rw [first.grown.ruleStarts] at fits
  have both := first.grown.trans later
  rw [← List.nil_append (_ ++ _)] at both
  refine (meets_link both first.fits).weaken ?_ fun _ admitted => admitted
  intro _ later linked
  refine ⟨?_, first.fits.append fits⟩
  have checks : ∀ kind, (trail.append next).checks kind index =
      trail.checks kind index ++ next.checks kind index := by
    intro kind
    simp [Trail.checks, Trail.blocks_append]
  rw [Trail.layout_append, Trail.enter_of_first? fits.first, checks, checks]
  exact linked

theorem lexer_of_sketchCommands {written : List Command} {trails : List Trail}
    (drawn : plan.sketchCommands index written = some (trails.map Trail.erase))
    (several : ¬written.isEmpty = true) : plan.kind = .lexer ∧ trails ≠ [] := by
  cases written with
  | nil => exact absurd rfl several
  | cons first rest =>
      simp only [Plan.sketchCommands, Option.bind_eq_bind, Option.bind_eq_some_iff,
        Option.map_eq_some_iff] at drawn
      obtain ⟨_, ⟨label, labelled, _⟩, _, _, ends⟩ := drawn
      constructor
      · unfold Plan.commandLabel? at labelled
        cases kind : plan.kind with
        | parser => simp [kind] at labelled
        | lexer => rfl
      · rintro rfl
        cases ends

/-- Commands that run something stand behind a trail of which all stays. -/
theorem core_before_commands {before after : Construction} {written : List Command} {commands : List Trail}
    {handles : List Handle} (drawn : plan.sketchCommands index written = some (commands.map Trail.erase))
    (all : BuiltAll before after index commands handles) (trail : Trail) :
    trail.core (!plan.runsNothing written) ⊆ trail.core (false || !(Trail.joinAll commands).idle) := by
  rw [Bool.false_or, Trail.idle_joinAll (isOpen_of_fits all.fits)]
  cases idle : commands.all Trail.idle with
  | true =>
      have erased : (commands.map Trail.erase).all Trail.idle = true := by
        simpa [List.all_map, Function.comp_def, Trail.idle_erase] using idle
      rw [Plan.runsNothing_of_sketchCommands drawn erased]
      exact List.Subset.refl _
  | false =>
      cases plan.runsNothing written with
      | true => exact trail.core_subset _
      | false => exact List.Subset.refl _

theorem meets_assemble {current : Construction} (ready : Ready plan index before) (site : Site)
    (alternative : Nat) {trails : List Trail} {pieces : List Handle} (written : List Command)
    (built : BuiltAll (before.flawed (Ways.ofList trails).gaps) current index trails pieces)
    {assemblies : List Assembly} (framed : Framed (trails.flatMap Trail.joints) assemblies) :
    Meets (assemble plan site alternative pieces written) current
      (fun piece after => ∃ trail,
        Assembled plan before current after index site alternative trails written assemblies trail piece)
      (· ∈ written.flatMap fun _ => plan.commandFaults) := by
  simp only [assemble]
  refine meets_body ready site alternative built framed fun piece middle trail body size keeps => ?_
  split
  · rename_i none
    rw [List.isEmpty_iff.mp none]
    exact ⟨trail, body⟩
  -- The commands are built behind the elements, so all that stays of the elements stays in front of them.
  · rename_i several
    simp only [meets_bind]
    refine (meets_commands site alternative written (ready.built body.built)).weaken ?_ fun _ listed => listed
    rintro handles after ⟨commands, all, drawn, plain, means⟩
    obtain ⟨lexer, present⟩ := lexer_of_sketchCommands drawn several
    have nonempty : handles ≠ [] := by
      rintro rfl
      cases all.fits
      exact present rfl
    refine ((meets_sequence_built ((ready.built body.built).flawed _).moored all nonempty).both
      ((vets_sequence : Vets plan [] _) after)).weaken ?_ fun _ admitted => admitted
    rintro following later ⟨joined, sequenced⟩
    simp only [attachCommands, lexer, meets_bind, meets_pure]
    refine ((meets_append (body.built.flawed _) joined).both ((vets_epsilon : Vets plan [] _) later)).weaken ?_
      fun _ admitted => admitted
    rintro _ last ⟨appended, linked⟩
    rw [Construction.flawed_flawed, ← Trail.gaps_joinAll, ← Trail.gaps_append] at appended
    have marks := sequenced.marks.keepsMarks.trans linked.marks.keepsMarks
    refine ⟨_, appended, fun marked fresh => ?_, ?_, ?_, fun inside =>
      (body.means inside).append (isOpen_of_fits all.fits) (means inside) marks⟩
    · have new : (Trail.joinAll commands).paint marked = Trail.joinAll (commands.map Trail.erase) := by
        rw [Trail.paint_eq_erase fun id member => fresh id (Nat.le_trans size (joined.nextId_le member)),
          ← Trail.paint_none, Trail.paint_joinAll, funext Trail.paint_none]
      rw [Trail.paint_append, new, Plan.assembleSketch, if_neg several, drawn]
      exact congrArg (fun front : Trail => some (front.append _)) (Option.some.inj (body.painted marked fresh))
    · rw [Trail.joints_append, Trail.joints_joinAll]
      simpa using body.framed.append plain
    · rw [Trail.core_append]
      exact List.subset_append_of_subset_left _
        (List.Subset.trans (keeps _) (core_before_commands drawn all trail))

theorem meets_leaf {step : Build Handle} {site : Site} {element : Element} {bad : Failure → Prop}
    (drawn : Meets step before (DrawsLeaf before index (plan.leaf? index element)) bad) (vets : Vets plan [] step) :
    Meets (do let handle ← step; return (handle, handle.left)) before
      (DrawsElement before index ((plan.leaf? index element).map Leaf.trail)
        (fun _ => (plan.leaf? index element).map Leaf.trail) [] [] []
        fun mark trail after => site.rule = index → plan.MeansElement after site element mark trail) bad := by
  simp only [meets_bind, meets_pure]
  refine (drawn.both (vets before)).weaken ?_ fun _ admitted => admitted
  rintro piece after ⟨⟨trail, built, sketched⟩, vetted⟩
  obtain ⟨leaf, found, erased⟩ := Option.map_eq_some_iff.mp sketched
  refine ⟨trail, ⟨built, sketched, framed_nil erased.symm leaf.joints_trail⟩, .none _ _ _,
    Trail.opening_of_first? built.fits.first, fun backed => .leaf backed built vetted.marks.same sketched,
    fun inside => ?_⟩
  subst inside
  exact .leaf found erased.symm built.fits.first

/-- The trail of a block has the words of the block, whatever its states run. -/
theorem Encloses.words {current after : Construction} {suffix : Option Suffix} {trails : List Trail}
    {assemblies : List Assembly} {trail : Trail} {result : Handle × StateId} {vocabulary : IntervalSet}
    {meanings : Meanings} (encloses : Encloses before current after index suffix trails assemblies trail result)
    (names : Naming) :
    trail.words vocabulary meanings names =
      blockWords suffix (trails.map (Trail.words vocabulary meanings names)).sum := by
  rcases encloses.around with same | ⟨frame, start, exit, ways, rfl, same⟩
  · exact Trail.words_ofBlock names same
  · rw [← Trail.words_ofBlock names same]
    simp only [Trail.words, Frame.words_erase]

theorem meets_drawnBlock {current : Construction} (ready : Ready plan index before) {site : Site} {body : Block}
    {position : Option Position} {pieces : List Handle} {trails : List Trail}
    (built : BuiltAll (before.flawed (Ways.ofList trails).gaps) current index trails pieces)
    (drawn : plan.sketchAlternatives index body.alternatives = some (trails.map Trail.erase))
    {assemblies : List Assembly} (framed : Framed (trails.flatMap Trail.joints) assemblies)
    {places tails : List Item} (stamped : Stamped places tails (trails.flatMap (Trail.core false)) current)
    {plots : (Site → Bool) → Option (List Trail)}
    (plotted : before.Backed → Plots before current plots fun marked => trails.map (Trail.paint marked))
    (means : site.rule = index → plan.MeansAlternatives current site 0 body.alternatives trails) :
    Meets (block plan body position pieces) current
      (DrawsElement before index (Trail.ofBlock body.suffix (trails.map Trail.erase))
        (fun places => plots places >>= Trail.ofBlock body.suffix) (assemblies ++ [⟨body, pieces⟩]) places tails
        fun _ trail after => site.rule = index → plan.MeansBlock after site body trail)
      (· ∈ Plan.blockFaults body.alternatives) := by
  have flawed := ready.flawed (Ways.ofList trails).gaps
  have count : pieces.length = body.alternatives.length := by
    rw [← Plan.length_sketchAlternatives drawn, List.length_map, built.fits.length_eq]
  refine ((meets_block flawed.rule flawed.moored built.fits built.grown count framed).both
    (vets_block current)).weaken ?_ ?_
  · rintro result after ⟨⟨trail, encloses⟩, vetted⟩
    refine ⟨trail, ⟨?_, encloses.shape, encloses.framed⟩,
      stamped.later (List.Subset.refl _) encloses.cores vetted.marks.elements, encloses.opening, fun backed =>
        (plotted backed).block encloses.painted vetted.marks.same vetted.tables.size, fun inside =>
        (means inside).block vetted.marks.keepsMarks fun _ _ => encloses.words⟩
    have gaps := Trail.gaps_ofBlock encloses.shape
    rw [Trail.gaps_erase, Ways.gaps_ofList_map Trail.gaps_erase] at gaps
    rw [gaps]
    exact encloses.built
  · rintro failure ⟨rfl, rfl⟩
    have none : (Trail.ofBlock body.suffix []).isSome = _ := Plan.isSome_ofBlock body.suffix drawn
    unfold Plan.blockFaults at none ⊢
    split
    · exact List.mem_singleton.mpr rfl
    · rename_i several
      rw [if_neg several] at none
      cases none

theorem after_elementList {site : Site} {alternative number : Nat} {first : Element} {piece : Handle} {mark : StateId}
    (ends : element plan (site.child alternative number) first before = .ok (piece, mark) middle) :
    after (elementList plan site alternative number [first]) before =
      { middle with elementStates := (site.child alternative number, mark) :: middle.elementStates } := by
  apply after_eq
  simp only [elementList, meets_bind, meets_of_ok ends, meets_markElement, meets_pure]

theorem after_alternative {site : Site} {number : Nat} {elements : List Element} {written : List Command}
    {pieces : List Handle} {piece : Handle} {later : Construction}
    (listEnds : elementList plan site number 0 elements before = .ok pieces middle)
    (ends : assemble plan site number pieces written middle = .ok piece later) :
    after (alternative plan site number ⟨elements, written⟩) before = later := by
  apply after_eq
  simp only [alternative, meets_bind, meets_of_ok listEnds, meets_of_ok ends]

mutual

/-- An element is built as it is sketched, and what stays inside it is plotted. -/
theorem meets_element : ∀ (written : Element) {site : Site} {before : Construction},
    Ready plan index before →
    Meets (element plan site written) before
      (DrawsElement before index (plan.sketch index written) (fun places => plan.plot index places site written)
        (elementAssemblies plan site before written) (innerPlaces site written) (plan.innerTails site written)
        fun mark trail after => site.rule = index → plan.MeansElement after site written mark trail)
      (· ∈ plan.elementFaults written)
  | ⟨.block ⟨alternatives, suffix⟩, position⟩, site, before, ready => by
      simp only [element, meets_bind, Plan.sketch, Plan.plot, Plan.elementFaults, elementAssemblies]
      refine (meets_alternativeList alternatives ready).run.weaken ?_ fun _ listed => List.mem_append_left _ listed
      rintro pieces middle ⟨ends, trails, built, drawn, framed, stamped, plotted, means⟩
      rw [drawn, pieces_of_ok ends]
      refine (meets_drawnBlock ready built drawn framed stamped plotted means).weaken ?_
        fun _ listed => List.mem_append_right _ listed
      rintro _ _ ⟨trail, drawn, stamped, begins, plotted, means⟩
      exact ⟨trail, drawn, stamped, begins, plotted, fun inside => .block (means inside)⟩
  | ⟨.token _, _⟩, _, _, ready => meets_leaf (meets_tokenLeaf ready) vets_tokenLeaf
  | ⟨.rule name precedence, position⟩, _, _, ready => by
      have same : plan.leaf? index ⟨.rule name precedence, position⟩ = plan.callLeaf? name precedence := by
        unfold Plan.leaf?
        cases plan.kind <;> rfl
      have faults : plan.elementFaults ⟨.rule name precedence, position⟩ = plan.callFaults name := by
        simp only [Plan.elementFaults, Plan.leafFaults]
      simp only [Plan.sketch, Plan.plot, faults]
      exact meets_leaf (same ▸ meets_ruleLeaf ready) vets_ruleLeaf
  | ⟨.literal _, _⟩, _, _, ready => meets_leaf (meets_literalLeaf ready) vets_literalLeaf
  | ⟨.charSet _, _⟩, _, _, ready => meets_leaf (meets_charSetLeaf ready) vets_charSetLeaf
  | ⟨.range _ _, _⟩, _, _, ready => meets_leaf (meets_rangeLeaf ready) vets_rangeLeaf
  | ⟨.set _ _, _⟩, _, _, ready => meets_leaf (meets_setLeaf ready) vets_setLeaf
  | ⟨.wildcard, position⟩, _, before, ready => by
      have same : plan.leaf? index ⟨.wildcard, position⟩ = some (.chain [.wildcard]) := by
        unfold Plan.leaf?
        cases plan.kind <;> rfl
      exact meets_leaf (meets_atom (.refl before) rfl same) (vets_atom : Vets plan [] _)
  | ⟨.action _ _, _⟩, _, _, ready => meets_leaf (meets_actionElement ready) vets_actionElement
  | ⟨.predicate _ _ _, _⟩, _, _, ready => meets_leaf (meets_predicateLeaf ready) vets_predicateLeaf

theorem meets_elementList : ∀ (written : List Element) {site : Site} {alternative number : Nat}
    (behind : List Command) {before : Construction}, Ready plan index before →
    Meets (elementList plan site alternative number written) before
      (DrawsAll before index (plan.sketchList index written)
        (listAssemblies plan site alternative number before written)
        fun trails after => StampedList plan site alternative number written behind trails after ∧
          (before.Backed → Plots before after (fun places => plan.plotList index places site alternative number written)
            fun marked => trails.map (Trail.paint marked)) ∧
          (site.rule = index → plan.MeansList after site alternative number written trails))
      (· ∈ plan.listFaults written)
  | [], _, _, _, _, before, _ => meets_nil index ⟨.none _ _ _, .nil, fun _ => .nil before⟩
  | first :: rest, site, alternative, number, behind, before, ready => by
      rw [elementList, Plan.sketchList, Plan.listFaults, listAssemblies]
      refine meets_bind.mpr ((meets_element first ready).run.weaken ?_ fun _ listed => List.mem_append_left _ listed)
      rintro ⟨piece, mark⟩ middle ⟨ends, trail, drawn, stamped, begins, plotted, means⟩
      refine meets_bind.mpr (meets_markElement.mpr ?_)
      rw [after_elementList ends]
      have same : Grown.Unmoved middle
          { middle with elementStates := (site.child alternative number, mark) :: middle.elementStates } :=
        ⟨rfl, rfl, rfl, rfl, .refl _⟩
      have moved := drawn.built.unmoved same
      refine meets_cons ⟨moved, drawn.shape, drawn.framed⟩ ((meets_elementList rest behind (ready.built moved)).weaken
        (fun _ _ done => done) fun _ listed => List.mem_append_right _ listed)
        (vets_elementList site alternative (number + 1) rest) fun trails after sketched opens marks later => ?_
      obtain ⟨later, plots, behind⟩ := later
      exact ⟨later.cons moved.fits.opens drawn.shape stamped begins sketched opens marks.elements,
        fun backed => .cons drawn.built begins (plotted backed) plots marks.elements,
        fun inside => .cons (means inside) marks (behind inside)⟩

theorem meets_alternativeList : ∀ (written : List Alternative) {site : Site} {number : Nat}
    {before : Construction}, Ready plan index before →
    Meets (alternativeList plan site number written) before
      (DrawsAll before index (plan.sketchAlternatives index written)
        (alternativeAssemblies plan site number before written)
        fun trails after => Stamped (alternativePlaces site number written) (plan.alternativeTails site number written)
            (trails.flatMap (Trail.core false)) after ∧
          (before.Backed → Plots before after (fun places => plan.plotAlternatives index places site number written)
            fun marked => trails.map (Trail.paint marked)) ∧
          (site.rule = index → plan.MeansAlternatives after site number written trails))
      (· ∈ plan.alternativeFaults written)
  | [], _, _, before, _ => meets_nil index ⟨.none _ _ _, .nil, fun _ => .nil before⟩
  | ⟨elements, written⟩ :: rest, site, number, before, ready => by
      rw [alternativeList, Plan.sketchAlternatives, Plan.alternativeFaults, alternativeAssemblies]
      refine meets_bind.mpr ((meets_elementList elements written ready).run.weaken ?_ fun _ listed => by simp [listed])
      rintro pieces middle ⟨listEnds, trails, built, drawn, framed, stamped, plotted, list⟩
      rw [drawn]
      have assembled := (meets_assemble ready site number written built framed).both (vets_assemble middle)
      refine meets_bind.mpr (assembled.run.weaken ?_ fun _ listed => by simp [listed])
      rintro piece after ⟨ends, ⟨trail, assembled⟩, vetted⟩
      rw [after_alternative listEnds ends]
      have all := (stamped.later (List.Subset.refl _) assembled.cores vetted.marks.elements).append
        (.commands site number written)
      refine meets_cons assembled.drawn ((meets_alternativeList rest (ready.built assembled.built)).weaken
        (fun _ _ done => done) fun _ listed => List.mem_append_right _ listed)
        (vets_alternativeList site (number + 1) rest) fun trails last _ _ marks later => ?_
      obtain ⟨later, plots, behind⟩ := later
      refine ⟨?_, ?_, fun inside => ?_⟩
      · rw [alternativePlaces, ← List.append_assoc, Plan.alternativeTails, List.flatMap_cons]
        exact (all.later (List.subset_append_left _ _) (List.subset_append_left _ _) marks.elements).append
          (later.later (List.subset_append_right _ _) (List.subset_append_right _ _) (List.Subset.refl _))
      -- Only elements are remembered, and there are none among the commands.
      · have unchanged := vetted.marks.still fun place listed => by
          obtain ⟨item, command, owner⟩ := List.mem_map.mp listed
          obtain ⟨_, _, _, rfl⟩ := mem_commandItems command
          cases owner
        exact fun backed => (plotted backed).alternative assembled.painted assembled.built unchanged
          vetted.tables.size plots marks.elements
      · exact .cons (list inside) (vetted.marks.keepsMarks.trans marks) ((assembled.means inside).mono marks)
          (behind inside)

end

end Build

end GrammarNetwork
