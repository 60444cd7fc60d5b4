import GrammarNetwork.Proofs.Marks
import GrammarNetwork.Proofs.Parts

/-! The rules of a network: each rule gets its start and its end first, and its body between them later. -/

namespace GrammarNetwork

/-- A state that belongs to no rule and leads only to the starts of rules. -/
structure State.IsNeutral (starts : Array StateId) (state : State) : Prop where
  rule : state.rule = none
  kind : state.kind = .basic ∨ state.kind = .tokensStart
  transitions : ∀ transition ∈ state.transitions, ∃ start ∈ starts, transition = .silent start

theorem State.IsNeutral.references {starts : Array StateId} {state : State} (neutral : state.IsNeutral starts) :
    state.kind.references = [] := by
  rcases neutral.kind with kind | kind <;> rw [kind] <;> rfl

/-- The states of the rule. -/
def RulePart.ids (part : RulePart) : List StateId :=
  part.start :: part.stop :: part.body.ids

theorem RulePart.ids_heap (starts : Array StateId) (index : Nat) (part : RulePart) :
    (part.heap starts index).ids = part.ids := by
  simp [heap, ids, Trail.ids_layout]

theorem RulePart.rule_heap {starts : Array StateId} {part : RulePart} {index : Nat} :
    ∀ entry ∈ part.heap starts index, entry.2.rule = some index := by
  intro entry member
  simp only [RulePart.heap, List.mem_cons] at member
  rcases member with rfl | rfl | inside
  · rfl
  · rfl
  · exact (part.body.isInner_layout entry inside).1

/-- The network consists of these rules, and of states that belong to none. -/
structure Network.Houses (network : Network) (others : Heap) (parts : List RulePart) : Prop where
  stands : Stands network (others ++ RulePart.heaps network.ruleStarts 0 parts)
  starts : network.ruleStarts.toList = parts.map RulePart.start
  stops : network.ruleStops.toList = parts.map RulePart.stop
  modes : ∀ id ∈ network.modeStarts, id ∈ others.ids
  neutral : ∀ entry ∈ others, entry.2.IsNeutral network.ruleStarts
  calls : ∀ part ∈ parts, part.body.CallsBelow parts.length
  exits : ∀ part ∈ parts, ∀ transition ∈ part.exits,
    transition.label.isCall = false ∧ network.isLive transition.target = true

/-- A rule leads only to its own states, before its end. -/
theorem RulePart.confined {starts : Array StateId} {part : RulePart} {index : Nat}
    (calls : part.body.CallsBelow starts.size) {id : StateId} {state : State}
    (member : (id, state) ∈ part.heap starts index) :
    state = { rule := some index, kind := .ruleStop, transitions := part.exits } ∧ id = part.stop ∨
      state.Confined starts (some index) (part.heap starts index).ids := by
  have inner : ∀ id ∈ part.body.ids, id ∈ (part.heap starts index).ids := fun id listed => by
    simp [RulePart.heap, Trail.ids_layout, listed]
  have atStop : part.stop ∈ (part.heap starts index).ids := by simp [RulePart.heap]
  simp only [RulePart.heap, List.mem_cons, Prod.mk.injEq] at member
  rcases member with ⟨rfl, rfl⟩ | ⟨rfl, rfl⟩ | within
  · refine Or.inr (.silent rfl rfl (fun target found => ?_) (by simp [StateKind.references, atStop]))
    exact inner target (Trail.first?_mem (Option.mem_toList.mp found))
  · exact Or.inl ⟨rfl, rfl⟩
  · exact Or.inr (part.body.confined calls inner atStop (id, state) within)

theorem RulePart.split (starts : Array StateId) (others : Heap) (ahead behind : List RulePart)
    (part : RulePart) :
    (others ++ heaps starts 0 (ahead ++ part :: behind)).Perm
      (part.heap starts ahead.length ++
        (others ++ (heaps starts 0 ahead ++ heaps starts (ahead.length + 1) behind))) := by
  have inner := heaps_split starts ahead behind part 0
  rw [Nat.zero_add] at inner
  exact (inner.append_left others).trans (List.perm_append_comm_assoc _ _ _)

theorem RulePart.heaps_of_done (starts later : Array StateId) {parts : List RulePart}
    (empty : ∀ part ∈ parts, part.body = .done) (index : Nat) :
    RulePart.heaps starts index parts = RulePart.heaps later index parts := by
  induction parts generalizing index with
  | nil => rfl
  | cons part parts ih =>
      rw [List.forall_mem_cons] at empty
      simp only [RulePart.heaps, RulePart.heap, empty.1, Trail.layout, ih empty.2]

/-- The part of a rule without a body whose start has this number. -/
def RulePart.bare (start : StateId) (leftRecursive : Bool) : RulePart where
  start
  stop := start + 1
  leftRecursive

/-- The network with the start and the end of a rule. -/
def Network.addRule (network : Network) (index : Nat) (leftRecursive : Bool) : Network :=
  let start := network.nextId
  let opened := network.addState { rule := some index, kind := .ruleStart (start + 1) leftRecursive }
  let closed := opened.addState { rule := some index, kind := .ruleStop }
  { closed with
    ruleStarts := closed.ruleStarts.push start
    ruleStops := closed.ruleStops.push (start + 1) }

theorem Network.staysLive_addRule {network : Network} {index : Nat} {leftRecursive : Bool} {id : StateId}
    (live : network.isLive id = true) : (network.addRule index leftRecursive).isLive id = true := by
  obtain ⟨state, found⟩ := network.isLive_iff.mp live
  have old : id < network.nextId := network.lt_nextId_of_state? found
  refine (network.addRule index leftRecursive).isLive_iff.mpr ⟨state, ?_⟩
  have same : (network.addRule index leftRecursive).state? id =
    ((network.addState { rule := some index, kind := .ruleStart (network.nextId + 1) leftRecursive }).addState
      { rule := some index, kind := .ruleStop }).state? id := rfl
  rw [same, Network.state?_addState, Network.state?_addState, Network.nextId_addState,
    if_neg (Nat.ne_of_lt (Nat.lt_succ_of_lt old)), if_neg (Nat.ne_of_lt old), found]

namespace Network.Houses

variable {network : Network} {others : Heap} {parts ahead behind : List RulePart} {part : RulePart}

theorem startsSize (houses : network.Houses others parts) : network.ruleStarts.size = parts.length := by
  rw [← Array.length_toList, houses.starts, List.length_map]

theorem stopsSize (houses : network.Houses others parts) : network.ruleStops.size = parts.length := by
  rw [← Array.length_toList, houses.stops, List.length_map]

theorem ruleStarts_getElem? (houses : network.Houses others parts) (index : Nat) :
    network.ruleStarts[index]? = parts[index]?.map RulePart.start := by
  rw [← Array.getElem?_toList, houses.starts, List.getElem?_map]

theorem ruleStops_getElem? (houses : network.Houses others parts) (index : Nat) :
    network.ruleStops[index]? = parts[index]?.map RulePart.stop := by
  rw [← Array.getElem?_toList, houses.stops, List.getElem?_map]

theorem state?_of_mem (houses : network.Houses others parts) {index : Nat} (found : parts[index]? = some part)
    {id : StateId} {state : State} (member : (id, state) ∈ part.heap network.ruleStarts index) :
    network.state? id = some state := by
  refine (houses.stands.exact id state).mpr (List.mem_append_right _ (RulePart.mem_heaps.mpr ?_))
  exact ⟨index, part, found, by rwa [Nat.zero_add]⟩

theorem state?_start (houses : network.Houses others parts) {index : Nat} (found : parts[index]? = some part) :
    network.state? part.start = some { rule := some index, kind := .ruleStart part.stop part.leftRecursive,
                                       transitions := part.body.first?.toList.map .silent } :=
  houses.state?_of_mem found (List.mem_cons_self ..)

theorem state?_stop (houses : network.Houses others parts) {index : Nat} (found : parts[index]? = some part) :
    network.state? part.stop = some { rule := some index, kind := .ruleStop, transitions := part.exits } :=
  houses.state?_of_mem found (List.mem_cons_of_mem _ (List.mem_cons_self ..))

theorem mem_of_state? (houses : network.Houses others parts) {id : StateId} {state : State}
    (found : network.state? id = some state) :
    (id, state) ∈ others ∨ ∃ (index : Nat) (part : RulePart), parts[index]? = some part ∧
      (id, state) ∈ part.heap network.ruleStarts index := by
  rcases List.mem_append.mp ((houses.stands.exact id state).mp found) with outside | within
  · exact Or.inl outside
  · obtain ⟨index, part, listed, member⟩ := RulePart.mem_heaps.mp within
    exact Or.inr ⟨index, part, listed, by rwa [Nat.zero_add] at member⟩

theorem callsBelow (houses : network.Houses others parts) {index : Nat} (found : parts[index]? = some part) :
    part.body.CallsBelow network.ruleStarts.size := by
  rw [houses.startsSize]
  exact houses.calls part (List.mem_of_getElem? found)

theorem isLive_of_mem (houses : network.Houses others parts) {index : Nat} (found : parts[index]? = some part)
    {id : StateId} (member : id ∈ (part.heap network.ruleStarts index).ids) : network.isLive id = true := by
  obtain ⟨state, inside⟩ := Heap.mem_ids.mp member
  exact network.isLive_iff.mpr ⟨state, houses.state?_of_mem found inside⟩

theorem older (houses : network.Houses others parts) (listed : part ∈ parts) :
    ∀ id ∈ part.ids, id < network.nextId := by
  intro id member
  obtain ⟨index, found⟩ := List.mem_iff_getElem?.mp listed
  rw [← RulePart.ids_heap network.ruleStarts index] at member
  obtain ⟨state, inside⟩ := Heap.mem_ids.mp member
  exact network.lt_nextId_of_state? (houses.state?_of_mem found inside)

theorem holds_body (houses : network.Houses others parts) {index : Nat} (found : parts[index]? = some part) :
    network.Holds (part.body.layout network.ruleStarts (some index) (some part.stop)) :=
  fun _ _ member => houses.state?_of_mem found (by simp [RulePart.heap, member])

theorem nodup_heap (houses : network.Houses others parts) {index : Nat} (found : parts[index]? = some part) :
    (part.heap network.ruleStarts index).ids.Nodup := by
  obtain ⟨bound, rfl⟩ := List.getElem?_eq_some_iff.mp found
  have count : (parts.take index).length = index := List.length_take_of_le (Nat.le_of_lt bound)
  have shape : parts.take index ++ parts[index] :: parts.drop (index + 1) = parts := by
    rw [← List.drop_eq_getElem_cons bound, List.take_append_drop]
  have unique := houses.stands.unique
  rw [← shape] at unique
  have split := RulePart.heaps_split network.ruleStarts (parts.take index) (parts.drop (index + 1)) parts[index] 0
  rw [count, Nat.zero_add] at split
  rw [Heap.ids_append, List.nodup_append] at unique
  have whole := (split.map Prod.fst).nodup_iff.mp unique.2.1
  rw [List.map_append] at whole
  exact (List.nodup_append.mp whole).1

theorem nodup_body (houses : network.Houses others parts) {index : Nat} (found : parts[index]? = some part) :
    part.body.ids.Nodup := by
  have unique := houses.nodup_heap found
  simp only [RulePart.heap, Heap.ids_cons, Trail.ids_layout] at unique
  exact (List.nodup_cons.mp (List.nodup_cons.mp unique).2).2

/-- A transition that calls a rule comes back to a state that is there. -/
theorem isLive_follow (houses : network.Houses others parts) {id : StateId} {state : State}
    (found : network.state? id = some state) {transition : Transition} (listed : transition ∈ state.transitions)
    {rule : Nat} {level : Int} {follow : StateId} (call : transition.label = .call rule level follow) :
    network.isLive follow = true := by
  rcases houses.mem_of_state? found with outside | ⟨index, part, known, member⟩
  · obtain ⟨start, _, rfl⟩ := (houses.neutral _ outside).transitions transition listed
    cases call
  · rcases RulePart.confined (houses.callsBelow known) member with ⟨rfl, _⟩ | confined
    · have plain := (houses.exits part (List.mem_of_getElem? known) transition listed).1
      simp [call, Label.isCall] at plain
    · obtain ⟨label, next, rfl, _, inside⟩ := confined.transitions transition listed
      cases label <;> cases call
      exact houses.isLive_of_mem known inside

/-- All starts are there, and that of a rule without a body leads nowhere. -/
theorem moored (houses : network.Houses others parts) {current : Nat}
    (empty : ∀ part, parts[current]? = some part → part.body = .done) :
    network.Moored (some current) := by
  intro index id found
  rw [houses.ruleStarts_getElem?, Option.map_eq_some_iff] at found
  obtain ⟨part, listed, rfl⟩ := found
  refine ⟨_, _, _, houses.state?_start listed, rfl, fun same => ?_⟩
  cases same
  simp [empty part listed, Trail.first?]

section Filling

variable {before after : Construction} {trail : Trail} {piece : Handle}

theorem stands_fill (houses : before.network.Houses others (ahead ++ part :: behind))
    (empty : part.body = .done) (built : Built before after ahead.length trail piece)
    (current : before.rule = some ahead.length) :
    Stands ((after.network.addTransition part.start ⟨piece.left, .epsilon⟩).addTransition piece.right
        ⟨part.stop, .epsilon⟩)
      (others ++ RulePart.heaps before.network.ruleStarts 0 (ahead ++ { part with body := trail } :: behind)) := by
  have stands := (houses.stands.grown built.grown).perm
    ((RulePart.split before.network.ruleStarts others ahead behind part).append_right _)
  rw [current] at stands
  simp only [RulePart.heap, empty, Trail.first?, Option.toList_none, List.map_nil, Trail.layout,
    List.cons_append, List.nil_append] at stands
  have unique := stands.unique
  simp only [Heap.ids_cons, Heap.ids_append, Trail.ids_layout] at unique
  have atEnd : piece.right ∈ trail.ids := Trail.last?_mem built.fits.last
  have trailUnique : trail.ids.Nodup := by grind
  have linked := (stands.modifyAt [] (State.extend piece.left) fun _ => rfl).modifyState piece.right
    (State.extend part.stop) fun _ => rfl
  rw [List.nil_append, Heap.modify_cons, Heap.modify_cons, Heap.modify_append,
    Trail.link _ _ _ built.fits.opens trailUnique built.fits.last, Heap.modify_of_notMem,
    if_neg, if_neg] at linked
  · refine linked.perm (List.Perm.trans ?_ (RulePart.split _ others ahead behind _).symm)
    simp only [RulePart.heap, built.fits.first, State.extend, List.nil_append, Option.toList_some, List.map_cons,
      List.map_nil, List.cons_append]
    exact (List.perm_append_comm.cons _).cons _
  · grind
  · grind
  · simp only [Heap.ids_append]; grind

theorem fill (houses : before.network.Houses others (ahead ++ part :: behind))
    (empty : part.body = .done) (built : Built before after ahead.length trail piece)
    (current : before.rule = some ahead.length) :
    ((after.network.addTransition part.start ⟨piece.left, .epsilon⟩).addTransition piece.right
      ⟨part.stop, .epsilon⟩).Houses others (ahead ++ { part with body := trail } :: behind) := by
  have sameStarts : after.network.ruleStarts = before.network.ruleStarts := built.grown.ruleStarts
  have sameStops : after.network.ruleStops = before.network.ruleStops := built.grown.ruleStops
  have sameModes : after.network.modeStarts = before.network.modeStarts := by rw [built.grown.others]
  have count := houses.startsSize
  have stands := stands_fill houses empty built current
  obtain ⟨_, starts, stops, modes, neutral, calls, exits⟩ := houses
  simp only [List.forall_mem_append, List.forall_mem_cons] at calls exits
  refine ⟨?_, ?_, ?_, ?_, ?_, ?_, ?_⟩
  · simpa only [Network.addTransition, Network.modifyState, sameStarts] using stands
  · simp [Network.addTransition, Network.modifyState, sameStarts, starts]
  · simp [Network.addTransition, Network.modifyState, sameStops, stops]
  · simpa only [Network.addTransition, Network.modifyState, sameModes] using modes
  · simpa only [Network.addTransition, Network.modifyState, sameStarts] using neutral
  · have size : (ahead ++ { part with body := trail } :: behind).length = (ahead ++ part :: behind).length := by
      simp
    rw [size, List.forall_mem_append, List.forall_mem_cons]
    exact ⟨calls.1, count ▸ built.fits.callsBelow, calls.2.2⟩
  · have kept : ∀ transition : Transition, transition.label.isCall = false ∧
        before.network.isLive transition.target = true → transition.label.isCall = false ∧
        ((after.network.addTransition part.start ⟨piece.left, .epsilon⟩).addTransition piece.right
          ⟨part.stop, .epsilon⟩).isLive transition.target = true := by
      rintro transition ⟨plain, live⟩
      refine ⟨plain, ?_⟩
      simpa [Network.addTransition] using built.grown.staysLive live
    rw [List.forall_mem_append, List.forall_mem_cons]
    exact ⟨fun other member transition listed => kept transition (exits.1 other member transition listed),
      fun transition listed => kept transition (exits.2.1 transition listed),
      fun other member transition listed => kept transition (exits.2.2 other member transition listed)⟩

end Filling

/-- A rule without a body comes behind rules without bodies. -/
theorem addRule (houses : network.Houses others parts) (empty : ∀ part ∈ parts, part.body = .done)
    (leftRecursive : Bool) :
    (network.addRule parts.length leftRecursive).Houses others
      (parts ++ [RulePart.bare network.nextId leftRecursive]) := by
  refine ⟨?_, ?_, ?_, ?_, ?_, ?_, ?_⟩
  · have stands := (houses.stands.addState
      { rule := some parts.length, kind := .ruleStart (network.nextId + 1) leftRecursive } rfl).addState
      { rule := some parts.length, kind := .ruleStop } rfl
    have widened : Stands (network.addRule parts.length leftRecursive) _ := stands.congr rfl rfl
    refine widened.perm ?_
    rw [RulePart.heaps_append,
      RulePart.heaps_of_done (network.addRule parts.length leftRecursive).ruleStarts network.ruleStarts empty]
    simp [RulePart.heaps, RulePart.heap, RulePart.bare, Trail.layout, Trail.first?]
  · simp [Network.addRule, Network.addState, RulePart.bare, houses.starts]
  · simp [Network.addRule, Network.addState, RulePart.bare, houses.stops]
  · exact houses.modes
  · intro entry member
    obtain ⟨rule, kind, transitions⟩ := houses.neutral entry member
    refine ⟨rule, kind, fun transition listed => ?_⟩
    obtain ⟨target, known, same⟩ := transitions transition listed
    exact ⟨target, by simp [Network.addRule, Network.addState, known], same⟩
  · intro part member
    have done : part.body = .done := by
      rcases List.mem_append.mp member with old | new
      · exact empty part old
      · rw [List.mem_singleton.mp new]
        rfl
    simp [done, Trail.CallsBelow, Trail.labels]
  · intro part member transition listed
    rcases List.mem_append.mp member with old | new
    · obtain ⟨plain, live⟩ := houses.exits part old transition listed
      exact ⟨plain, Network.staysLive_addRule live⟩
    · rw [List.mem_singleton.mp new] at listed
      simp [RulePart.bare] at listed

end Network.Houses

/-- What a construction has come to: a network of rules, and their blocks that are to be checked. The gaps of
the rules have been reported. -/
structure Progress (journal : Journal) (construction : Construction) (others : Heap)
    (parts : List RulePart) : Prop where
  houses : construction.network.Houses others parts
  loopChecks : construction.loopChecks.toList = RulePart.checks Frame.isLoop 0 parts
  optionalChecks : construction.optionalChecks.toList = RulePart.checks Frame.isOptional 0 parts
  journal : (journal.flawed (RulePart.gaps parts)).Continues construction.journal

theorem Progress.closing {journal : Journal} {construction : Construction} {others : Heap} {parts : List RulePart}
    (progress : Progress journal construction others parts) : construction.journal.closing = journal.closing := by
  rw [progress.journal.closing, Journal.closing_flawed]

theorem RulePart.gaps_of_done {parts : List RulePart} (empty : ∀ part ∈ parts, part.body = .done) :
    RulePart.gaps parts = 0 :=
  RulePart.gaps_eq_zero.mpr fun part listed => by rw [empty part listed]; rfl

theorem RulePart.checks_of_done (kind : Frame → Bool) {parts : List RulePart}
    (empty : ∀ part ∈ parts, part.body = .done) (index : Nat) : RulePart.checks kind index parts = [] := by
  induction parts generalizing index with
  | nil => rfl
  | cons part parts ih =>
      rw [List.forall_mem_cons] at empty
      simp [RulePart.checks, empty.1, Trail.checks, Trail.blocks, ih empty.2]

/-- The part is that of a rule without its body. -/
structure RulePart.Opens (part : RulePart) (written : Rule) : Prop where
  body : part.body = .done
  exits : part.exits = []
  leftRecursive : part.leftRecursive = written.leftRecursive

theorem RulePart.body_of_opens {parts : List RulePart} {written : List Rule}
    (opens : List.Forall₂ RulePart.Opens parts written) : ∀ part ∈ parts, part.body = .done := by
  induction opens with
  | nil => simp
  | cons first _ ih => exact List.forall_mem_cons.mpr ⟨first.body, ih⟩

/-- The joints of the rules. -/
def RulePart.joints (parts : List RulePart) : List Joint :=
  parts.flatMap fun part => part.body.joints

/-- The part is that of a rule with the body that is sketched for it. -/
structure RulePart.Draws (plan : Plan) (part : RulePart) (entry : Rule × Nat) : Prop where
  body : plan.sketchBody entry.2 entry.1.body = some part.body.erase
  leftRecursive : part.leftRecursive = entry.1.leftRecursive

/-- The start and the end of the rule are not remembered for any element. -/
def RulePart.Apart (construction : Construction) (part : RulePart) : Prop :=
  ∀ entry ∈ construction.elementStates, entry.2 ≠ part.start ∧ entry.2 ≠ part.stop

/-- States are remembered for the elements of the rule between its start and its end, and in the part there are those of
them that there are in the plot. They stay unless the elements and all behind them in their alternatives only lead on.
When they run what the elements and the commands are to run, the part has the words of the rule. -/
structure RulePart.Stamped (plan : Plan) (construction : Construction) (part : RulePart) (entry : Rule × Nat) :
    Prop where
  stays : GrammarNetwork.Stamped (entry.1.places entry.2) (plan.ruleTails entry.2 entry.1) (part.body.core false)
    construction
  painted : ∀ places, plan.plotBody entry.2 places entry.1.body = some (part.body.paint (construction.isStamp places))
  apart : part.Apart construction
  means : plan.MeansBlock construction ⟨entry.2, []⟩ entry.1.body part.body

namespace RulePart

variable {plan : Plan} {before after : Construction} {part : RulePart} {entry : Rule × Nat}

/-- What is remembered later is new. -/
theorem Apart.later (apart : part.Apart before) (recalls : Recalls before after)
    (older : ∀ id ∈ part.ids, id < before.network.nextId) : part.Apart after := by
  intro stamp listed
  refine (recalls.recent stamp listed).elim (apart stamp) fun above => ?_
  exact ⟨Nat.ne_of_gt (Nat.lt_of_lt_of_le (older _ (by simp [ids])) above),
    Nat.ne_of_gt (Nat.lt_of_lt_of_le (older _ (by simp [ids])) above)⟩

theorem Stamped.later (stamped : part.Stamped plan before entry) (recalls : Recalls before after)
    (marks : before.KeepsMarks after) (older : ∀ id ∈ part.ids, id < before.network.nextId) :
    part.Stamped plan after entry where
  stays := stamped.stays.later (List.Subset.refl _) (List.Subset.refl _) marks.elements
  painted places := by
    rw [stamped.painted]
    refine congrArg some (Trail.paint_congr fun id member => (recalls.isStamp marks.elements (older id ?_)).symm)
    simp [ids, member]
  apart := stamped.apart.later recalls older
  means := stamped.means.mono marks (List.Subset.refl _)

/-- Nothing has been remembered for elements since. -/
theorem Stamped.of_same (stamped : part.Stamped plan before entry) (same : after.elementStates = before.elementStates)
    (commands : before.commandStates ⊆ after.commandStates) : part.Stamped plan after entry where
  stays := stamped.stays.later (List.Subset.refl _) (List.Subset.refl _) (same ▸ List.Subset.refl _)
  painted places := by rw [stamped.painted, Construction.isStamp_of_same same]
  apart := by
    unfold Apart
    rw [same]
    exact stamped.apart
  means := stamped.means.mono ⟨same ▸ List.Subset.refl _, commands⟩ (List.Subset.refl _)

end RulePart

namespace Build

variable {plan : Plan} {journal : Journal} {others : Heap} {before : Construction} {bad : Failure → Prop}

theorem meets_newRule (written : Rule) {parts : List RulePart} (progress : Progress journal before others parts)
    (empty : ∀ part ∈ parts, part.body = .done) :
    Meets (newRule written parts.length) before (fun _ after => ∃ part : RulePart,
      part.Opens written ∧ Progress journal after others (parts ++ [part])) bad := by
  simp only [newRule, meets_bind, meets_network, meets_discard, meets_newStateIn, meets_modifyNetwork]
  have widened := progress.houses.addRule empty written.leftRecursive
  have done : ∀ part ∈ parts ++ [RulePart.bare before.network.nextId written.leftRecursive],
      part.body = .done := by
    intro part member
    rcases List.mem_append.mp member with old | new
    · exact empty part old
    · rw [List.mem_singleton.mp new]
      rfl
  refine ⟨.bare before.network.nextId written.leftRecursive, ⟨rfl, rfl, rfl⟩, ⟨?_, ?_, ?_, ?_⟩⟩
  · simpa [Network.addRule] using widened
  · rw [progress.loopChecks, RulePart.checks_of_done _ empty, RulePart.checks_of_done _ done]
  · rw [progress.optionalChecks, RulePart.checks_of_done _ empty, RulePart.checks_of_done _ done]
  · have journal := progress.journal
    rw [RulePart.gaps_of_done empty] at journal
    rw [RulePart.gaps_of_done done]
    exact journal

theorem meets_newRules (written : List Rule) : ∀ {before : Construction} {parts : List RulePart},
    Progress journal before others parts → (∀ part ∈ parts, part.body = .done) →
    Meets ((written.zipIdx parts.length).forM fun entry => newRule entry.1 entry.2) before
      (fun _ after => ∃ more, List.Forall₂ RulePart.Opens more written ∧
        Progress journal after others (parts ++ more)) bad := by
  induction written with
  | nil =>
      intro before parts progress _
      exact ⟨[], .nil, by simpa using progress⟩
  | cons first rest ih =>
      intro before parts progress empty
      simp only [List.zipIdx_cons, List.forM, meets_bind]
      refine (meets_newRule first progress empty).weaken ?_ fun _ admitted => admitted
      rintro _ middle ⟨part, opens, opened⟩
      have done : ∀ other ∈ parts ++ [part], other.body = .done := by
        intro other member
        rcases List.mem_append.mp member with old | new
        · exact empty other old
        · rw [List.mem_singleton.mp new]
          exact opens.body
      have later := ih opened done
      rw [List.length_append, List.length_singleton] at later
      refine later.weaken ?_ fun _ admitted => admitted
      rintro _ after ⟨more, all, progress⟩
      exact ⟨part :: more, .cons opens all, by simpa using progress⟩

theorem meets_ruleBlock {index : Nat} (ready : Ready plan index before) (site : Site) (body : Block) :
    Meets (ruleBlock plan site body) before
      (fun piece after => ∃ mark, DrawsElement before index (plan.sketchBody index body)
        (fun places => plan.plotAlternatives index places site 0 body.alternatives >>= Trail.ofBlock body.suffix)
        (bodyAssemblies plan site before body) (alternativePlaces site 0 body.alternatives)
        (plan.alternativeTails site 0 body.alternatives)
        (fun _ trail after => site.rule = index → plan.MeansBlock after site body trail) (piece, mark) after)
      (· ∈ plan.bodyFaults body) := by
  simp only [ruleBlock, meets_bind, Plan.sketchBody, meets_pure, Plan.bodyFaults, bodyAssemblies]
  refine (meets_alternativeList body.alternatives ready).run.weaken ?_ fun _ listed => List.mem_append_left _ listed
  rintro pieces middle ⟨ends, trails, built, drawn, framed, stamped, plotted, means⟩
  rw [drawn, pieces_of_ok ends]
  exact (meets_drawnBlock ready built drawn framed stamped plotted means).weaken (fun result _ done => ⟨result.2, done⟩)
    fun _ listed => List.mem_append_right _ listed

theorem meets_rule {after : Construction} {ahead behind : List RulePart} {part : RulePart} {trail : Trail}
    {piece : Handle} (built : Built before after ahead.length trail piece)
    (houses : before.network.Houses others (ahead ++ part :: behind)) (empty : part.body = .done)
    (current : before.rule = some ahead.length) {good : Handle → Construction → Prop}
    (next : ∀ network : Network, after.network.nextId ≤ network.nextId →
      network.Houses others (ahead ++ { part with body := trail } :: behind) →
      good ⟨part.start, part.stop⟩ { after with network }) :
    Meets (Build.rule plan ahead.length piece) after good bad := by
  have atStart : after.network.ruleStarts[ahead.length]? = some part.start := by
    rw [built.grown.ruleStarts, houses.ruleStarts_getElem?]
    simp
  have atStop : after.network.ruleStops[ahead.length]? = some part.stop := by
    rw [built.grown.ruleStops, houses.ruleStops_getElem?]
    simp
  have listed : (ahead ++ part :: behind)[ahead.length]? = some part := by simp
  have live : after.network.isLive part.start = true :=
    built.grown.staysLive (before.network.isLive_iff.mpr ⟨_, houses.state?_start listed⟩)
  have liveEnd : (after.network.addTransition part.start ⟨piece.left, .epsilon⟩).isLive piece.right = true := by
    rw [Network.addTransition, Network.isLive_modifyState]
    refine built.grown.isLive ?_
    rw [Trail.ids_layout]
    exact Trail.last?_mem built.fits.last
  simp only [Build.rule, ruleStates, meets_bind, meets_network, atStart, atStop, meets_pure]
  refine (meets_epsilon live).mpr ((meets_epsilon ?_).mpr ?_)
  · exact liveEnd
  · exact next _ (by simp [Network.addTransition]) (houses.fill empty built current)

theorem meets_wholeRule (written : Rule) {ahead behind : List RulePart} {part : RulePart}
    (progress : Progress journal before others (ahead ++ part :: behind)) (opens : part.Opens written)
    (empty : ∀ part ∈ behind, part.body = .done)
    (count : (ahead ++ part :: behind).length = plan.grammar.rules.size) (backed : before.Backed)
    (apart : part.Apart before) :
    Meets (wholeRule plan written ahead.length) before (fun _ after => Recalls before after ∧ ∃ drawn : RulePart,
      drawn.Draws plan (written, ahead.length) ∧ drawn.exits = [] ∧
        Framed drawn.body.joints (entryAssemblies plan before (written, ahead.length)) ∧
        drawn.Stamped plan after (written, ahead.length) ∧
        Progress journal after others (ahead ++ drawn :: behind)) (· ∈ plan.bodyFaults written.body) := by
  have houses := progress.houses
  simp only [wholeRule, meets_bind, meets_note, meets_setRule, meets_discard]
  have ready : Ready plan ahead.length
      { before with
        journal := before.journal.note (.ruleStarted written.name), rule := some ahead.length } :=
    { rule := rfl
      starts := houses.startsSize.trans count
      stops := houses.stopsSize.trans count
      moored := houses.moored fun other found => by
        have same : part = other := by simpa using found
        exact same ▸ opens.body }
  refine (meets_ruleBlock ready _ _).weaken ?_ fun _ listed => listed
  rintro piece middle ⟨mark, trail, ⟨built, drawn, framed⟩, stamped, _, plotted, means⟩
  have plots := plotted backed
  have recalls : Recalls before middle := ⟨plots.size, plots.backed, plots.recent⟩
  have complete : RulePart.Stamped plan middle { part with body := trail } (written, ahead.length) :=
    ⟨stamped, plots.painted, apart.later recalls (houses.older (by simp)), means rfl⟩
  -- What the end of the rule reports leaves the network alone, so the rule is closed in the same way after it.
  have reached : ∀ after : Construction, Grown.Unmoved middle after →
      after.elementStates = middle.elementStates → after.commandStates = middle.commandStates →
      Meets (Build.rule plan ahead.length piece) after (fun _ after => Recalls before after ∧ ∃ drawn : RulePart,
        drawn.Draws plan (written, ahead.length) ∧ drawn.exits = [] ∧
          Framed drawn.body.joints (entryAssemblies plan before (written, ahead.length)) ∧
          drawn.Stamped plan after (written, ahead.length) ∧
          Progress journal after others (ahead ++ drawn :: behind)) (· ∈ plan.bodyFaults written.body) := by
    intro after same remembered commands
    have moved := built.unmoved same
    have checks : ∀ kind, RulePart.checks kind 0 (ahead ++ { part with body := trail } :: behind) =
        RulePart.checks kind 0 (ahead ++ part :: behind) ++ trail.checks kind ahead.length := by
      intro kind
      simp [RulePart.checks_append, RulePart.checks, opens.body, RulePart.checks_of_done kind empty,
        Trail.checks, Trail.blocks]
    refine meets_rule moved houses opens.body rfl fun network size housed => ?_
    have kept : Recalls middle { after with network } := .of_same recalls.backed remembered (same.network ▸ size)
    refine ⟨recalls.trans kept, { part with body := trail }, ⟨drawn, opens.leftRecursive⟩, opens.exits, framed,
      complete.of_same remembered (commands ▸ List.Subset.refl _), housed, ?_, ?_, ?_⟩
    · rw [checks, ← progress.loopChecks]
      exact moved.grown.loopChecks
    · rw [checks, ← progress.optionalChecks]
      exact moved.grown.optionalChecks
    · have gaps : RulePart.gaps (ahead ++ { part with body := trail } :: behind) =
          RulePart.gaps (ahead ++ part :: behind) + trail.gaps := by
        simp only [RulePart.gaps_append, RulePart.gaps, opens.body, Trail.gaps]
        omega
      rw [gaps, ← Journal.flawed_flawed]
      exact ((progress.journal.trans (.note ..)).flawed trail.gaps).trans moved.grown.journal
  simp only [finishRule]
  split
  · exact meets_bind.mpr (reached _ ⟨rfl, rfl, rfl, rfl, .refl _⟩ rfl rfl)
  · exact reached _ ⟨rfl, rfl, rfl, rfl, .refl _⟩ rfl rfl

theorem meets_rules (written : List Rule) : ∀ {before : Construction} {ahead behind : List RulePart},
    Progress journal before others (ahead ++ behind) → List.Forall₂ RulePart.Opens behind written →
    (ahead ++ behind).length = plan.grammar.rules.size → before.Backed → (∀ part ∈ behind, part.Apart before) →
    Meets ((written.zipIdx ahead.length).forM fun entry => wholeRule plan entry.1 entry.2) before
      (fun _ after => Recalls before after ∧ ∃ drawn,
        List.Forall₂ (RulePart.Draws plan) drawn (written.zipIdx ahead.length) ∧
        (∀ part ∈ drawn, part.exits = []) ∧
        Framed (RulePart.joints drawn) (ruleAssemblies plan before (written.zipIdx ahead.length)) ∧
        List.Forall₂ (RulePart.Stamped plan after) drawn (written.zipIdx ahead.length) ∧
        Progress journal after others (ahead ++ drawn))
      (· ∈ written.flatMap fun rule => plan.bodyFaults rule.body) := by
  induction written with
  | nil =>
      intro before ahead behind progress opens _ backed _
      cases opens
      exact ⟨.of_same backed rfl (Nat.le_refl _), [], .nil, by simp, .nil, .nil, progress⟩
  | cons first rest ih =>
      intro before ahead behind progress opens count backed apart
      cases opens with
      | @cons part _ behind _ opens others =>
      have empty := RulePart.body_of_opens others
      rw [List.forall_mem_cons] at apart
      simp only [List.zipIdx_cons, List.forM, meets_bind, List.flatMap_cons]
      refine (meets_wholeRule first progress opens empty count backed apart.1).run.weaken ?_
        fun _ listed => List.mem_append_left _ listed
      rintro _ middle ⟨ends, recalls, drawn, draws, bare, framed, stamped, progressed⟩
      have older := progressed.houses.older (List.mem_append_right ahead List.mem_cons_self)
      have apart : ∀ part ∈ behind, part.Apart middle := fun other listed =>
        (apart.2 other listed).later recalls (progress.houses.older (by simp [listed]))
      rw [List.append_cons] at progressed
      have later := ih progressed others (by simpa using count) recalls.backed apart
      rw [List.length_append, List.length_singleton] at later
      refine (later.both (marks_forM (fun _ => marks_wholeRule) middle)).weaken ?_
        fun _ listed => List.mem_append_right _ listed
      rintro _ after ⟨⟨recalled, more, all, allBare, allFramed, allStamped, progress⟩, remembers⟩
      refine ⟨recalls.trans recalled, drawn :: more, .cons draws all, List.forall_mem_cons.mpr ⟨bare, allBare⟩, ?_,
        .cons (stamped.later recalled remembers.keepsMarks older) allStamped, by simpa using progress⟩
      rw [ruleAssemblies, after_of_ok ends]
      exact framed.append allFramed

end Build

end GrammarNetwork
