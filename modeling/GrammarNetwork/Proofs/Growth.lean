import GrammarNetwork.Proofs.Outcome
import GrammarNetwork.Proofs.Tails

/-! How a construction grows. What was there before stays, what is new is a heap, and every new decision
stands for the state that has its number. The blocks that are to be checked are listed in order, nothing is
said yet about loops and optional blocks that match nothing, and flaws that were reported stay reported. -/

namespace GrammarNetwork

/-- The problems that are found only when the network is complete. -/
def Problem.isClosing : Problem → Bool
  | .emptyLoop | .emptyLeftRecursion | .emptyOptional | .endOfInputLoop => true
  | _ => false

/-- What has been found in a complete network. -/
def Journal.closing (journal : Journal) : List Diagnostic :=
  journal.diagnostics.filter fun diagnostic => diagnostic.problem.isClosing

theorem Journal.diagnostics_note (journal : Journal) (note : Note) :
    (journal.note note).diagnostics = journal.diagnostics := by
  simp [Journal.note, Journal.diagnostics, Entry.diagnostic?]

theorem Journal.diagnostics_report (journal : Journal) (diagnostic : Diagnostic) :
    (journal.report diagnostic).diagnostics = journal.diagnostics ++ [diagnostic] := by
  simp [Journal.report, Journal.diagnostics, Entry.diagnostic?]

@[simp] theorem Journal.closing_note (journal : Journal) (note : Note) :
    (journal.note note).closing = journal.closing := by
  simp [Journal.closing, Journal.diagnostics_note]

theorem Journal.closing_report (journal : Journal) {diagnostic : Diagnostic}
    (early : diagnostic.problem.isClosing = false) :
    (journal.report diagnostic).closing = journal.closing := by
  simp [Journal.closing, Journal.diagnostics_report, early]

/-- The problems of a range or a set that has no characters. -/
def Problem.isFlaw : Problem → Bool
  | .invalidLiteralInLexerSet | .emptyLiteral => true
  | _ => false

/-- How many ranges and sets without characters have been reported. -/
def Journal.flaws (journal : Journal) : Nat :=
  journal.diagnostics.countP fun diagnostic => diagnostic.problem.isFlaw

theorem Journal.flaws_report (journal : Journal) (diagnostic : Diagnostic) :
    (journal.report diagnostic).flaws = journal.flaws + if diagnostic.problem.isFlaw then 1 else 0 := by
  cases wrong : diagnostic.problem.isFlaw <;> simp [Journal.flaws, Journal.diagnostics_report, wrong]

/-- The journal is continued while the network is not complete. -/
structure Journal.Continues (before after : Journal) : Prop where
  closing : after.closing = before.closing
  flaws : before.flaws ≤ after.flaws

namespace Journal.Continues

variable {before middle after : Journal}

theorem refl (journal : Journal) : journal.Continues journal :=
  ⟨rfl, Nat.le_refl _⟩

theorem trans (first : before.Continues middle) (second : middle.Continues after) : before.Continues after :=
  ⟨second.closing.trans first.closing, Nat.le_trans first.flaws second.flaws⟩

theorem note (journal : Journal) (note : Note) : journal.Continues (journal.note note) :=
  ⟨closing_note journal note, by simp [Journal.flaws, diagnostics_note]⟩

theorem report (journal : Journal) {diagnostic : Diagnostic} (early : diagnostic.problem.isClosing = false) :
    journal.Continues (journal.report diagnostic) :=
  ⟨closing_report journal early, by rw [flaws_report]; exact Nat.le_add_right _ _⟩

end Journal.Continues

/-- The journal with this many flaws more. -/
def Journal.flawed (journal : Journal) : Nat → Journal
  | 0 => journal
  | count + 1 => (journal.flawed count).report ⟨.emptyLiteral, "", none, []⟩

@[simp] theorem Journal.closing_flawed (journal : Journal) (count : Nat) :
    (journal.flawed count).closing = journal.closing := by
  induction count with
  | zero => rfl
  | succ count ih => rw [Journal.flawed, Journal.closing_report _ rfl, ih]

@[simp] theorem Journal.flaws_flawed (journal : Journal) (count : Nat) :
    (journal.flawed count).flaws = journal.flaws + count := by
  induction count with
  | zero => rfl
  | succ count ih =>
      rw [Journal.flawed, Journal.flaws_report, ih]
      rfl

theorem Journal.flawed_flawed (journal : Journal) (count more : Nat) :
    (journal.flawed count).flawed more = journal.flawed (count + more) := by
  induction more with
  | zero => rfl
  | succ more ih => exact congrArg (fun journal => Journal.report journal _) ih

theorem Journal.Continues.flawed {before after : Journal} (continues : before.Continues after) (count : Nat) :
    (before.flawed count).Continues (after.flawed count) :=
  ⟨by simpa using continues.closing, by simpa using Nat.add_le_add_right continues.flaws count⟩

/-- The construction as if this many flaws more had been reported. What it has built is the same. -/
def Construction.flawed (construction : Construction) (count : Nat) : Construction :=
  { construction with journal := construction.journal.flawed count }

theorem Construction.flawed_flawed (construction : Construction) (count more : Nat) :
    (construction.flawed count).flawed more = construction.flawed (count + more) :=
  congrArg (fun journal => { construction with journal }) (construction.journal.flawed_flawed count more)

@[simp] theorem Construction.journal_flawed (construction : Construction) (count : Nat) :
    (construction.flawed count).journal = construction.journal.flawed count := rfl

/-- The state with one more transition that consumes nothing. -/
def State.extend (target : StateId) (state : State) : State :=
  { state with transitions := state.transitions ++ [.silent target] }

/-- The construction `after` is `before` with a heap of new states and with blocks to check. -/
structure Grown (before after : Construction) (heap : Heap) (loops optionals : List Check) : Prop where
  old : ∀ id < before.network.nextId, after.network.state? id = before.network.state? id
  new : ∀ id state, before.network.nextId ≤ id →
    (after.network.state? id = some state ↔ (id, state) ∈ heap)
  above : ∀ id ∈ heap.ids, before.network.nextId ≤ id
  unique : heap.ids.Nodup
  size : before.network.nextId ≤ after.network.nextId
  oldDecisions : ∀ number < before.network.decisions.size,
    after.network.decisions[number]? = before.network.decisions[number]?
  newDecisions : ∀ number id, before.network.decisions.size ≤ number →
    (after.network.decisions[number]? = some id ↔
      ∃ state, (id, state) ∈ heap ∧ state.decision = some number)
  numbered : ∀ id state number, (id, state) ∈ heap → state.decision = some number →
    before.network.decisions.size ≤ number
  decisions : before.network.decisions.size ≤ after.network.decisions.size
  others : after.network =
    { before.network with states := after.network.states, decisions := after.network.decisions }
  rule : after.rule = before.rule
  loopChecks : after.loopChecks.toList = before.loopChecks.toList ++ loops
  optionalChecks : after.optionalChecks.toList = before.optionalChecks.toList ++ optionals
  journal : before.journal.Continues after.journal

namespace Grown

variable {before middle after : Construction} {heap : Heap} {loops optionals : List Check}

theorem refl (before : Construction) : Grown before before [] [] [] where
  old _ _ := rfl
  new id state beyond := by simp [before.network.state?_of_nextId_le beyond]
  above := by simp
  unique := by simp
  size := Nat.le_refl _
  oldDecisions _ _ := rfl
  newDecisions number id beyond := by simp [Array.getElem?_eq_none beyond]
  numbered := by simp
  decisions := Nat.le_refl _
  others := rfl
  rule := rfl
  loopChecks := by simp
  optionalChecks := by simp
  journal := .refl before.journal

theorem holds (grown : Grown before after heap loops optionals) : after.network.Holds heap := by
  intro id state member
  exact (grown.new id state (grown.above id (Heap.mem_ids_of_mem member))).mpr member

theorem below (grown : Grown before after heap loops optionals) {id : StateId} (member : id ∈ heap.ids) :
    id < after.network.nextId := by
  obtain ⟨state, inside⟩ := Heap.mem_ids.mp member
  exact after.network.lt_nextId_of_state? (grown.holds id state inside)

/-- What is made after a new state has a greater number. -/
theorem beyond (grown : Grown before after heap loops optionals) {bound id other : StateId} (member : id ∈ heap.ids)
    (above : bound ≤ id) (later : after.network.nextId ≤ other) : bound ≤ other :=
  Nat.le_trans above (Nat.le_trans (Nat.le_of_lt (grown.below member)) later)

theorem ruleStarts (grown : Grown before after heap loops optionals) :
    after.network.ruleStarts = before.network.ruleStarts := by
  rw [grown.others]

theorem ruleStops (grown : Grown before after heap loops optionals) :
    after.network.ruleStops = before.network.ruleStops := by
  rw [grown.others]

theorem trans {more : Heap} {laterLoops laterOptionals : List Check}
    (first : Grown before middle heap loops optionals)
    (second : Grown middle after more laterLoops laterOptionals) :
    Grown before after (heap ++ more) (loops ++ laterLoops) (optionals ++ laterOptionals) where
  old id bound := by rw [second.old id (Nat.lt_of_lt_of_le bound first.size), first.old id bound]
  new id state beyond := by
    rw [List.mem_append]
    by_cases old : id < middle.network.nextId
    -- What the first part made is older than all that the second part makes.
    · rw [second.old id old, first.new id state beyond]
      have absent : (id, state) ∉ more := fun member =>
        absurd (second.above id (Heap.mem_ids_of_mem member)) (Nat.not_le_of_lt old)
      simp [absent]
    · rw [second.new id state (Nat.le_of_not_lt old)]
      have absent : (id, state) ∉ heap := fun member => old (first.below (Heap.mem_ids_of_mem member))
      simp [absent]
  above id member := by
    rw [Heap.ids_append, List.mem_append] at member
    exact member.elim (first.above id) fun later => Nat.le_trans first.size (second.above id later)
  unique := by
    rw [Heap.ids_append, List.nodup_append]
    refine ⟨first.unique, second.unique, fun id member other later same => ?_⟩
    exact absurd (second.above other later) (Nat.not_le_of_lt (same ▸ first.below member))
  size := Nat.le_trans first.size second.size
  oldDecisions number bound := by
    rw [second.oldDecisions number (Nat.lt_of_lt_of_le bound first.decisions), first.oldDecisions number bound]
  newDecisions number id beyond := by
    simp only [List.mem_append]
    by_cases old : number < middle.network.decisions.size
    · rw [second.oldDecisions number old, first.newDecisions number id beyond]
      constructor
      · rintro ⟨state, member, decided⟩
        exact ⟨state, Or.inl member, decided⟩
      · rintro ⟨state, member | member, decided⟩
        · exact ⟨state, member, decided⟩
        · exact absurd (second.numbered id state number member decided) (Nat.not_le_of_lt old)
    · rw [second.newDecisions number id (Nat.le_of_not_lt old)]
      constructor
      · rintro ⟨state, member, decided⟩
        exact ⟨state, Or.inr member, decided⟩
      · rintro ⟨state, member | member, decided⟩
        · have found := (first.newDecisions number id beyond).mpr ⟨state, member, decided⟩
          exact absurd (Array.getElem?_eq_some_iff.mp found).1 old
        · exact ⟨state, member, decided⟩
  numbered id state number member decided := by
    rcases List.mem_append.mp member with here | later
    · exact first.numbered id state number here decided
    · exact Nat.le_trans first.decisions (second.numbered id state number later decided)
  decisions := Nat.le_trans first.decisions second.decisions
  others := by rw [second.others, first.others]
  rule := by rw [second.rule, first.rule]
  loopChecks := by rw [second.loopChecks, first.loopChecks, List.append_assoc]
  optionalChecks := by rw [second.optionalChecks, first.optionalChecks, List.append_assoc]
  journal := first.journal.trans second.journal

theorem perm {other : Heap} (grown : Grown before after heap loops optionals) (same : heap.Perm other) :
    Grown before after other loops optionals where
  old := grown.old
  new id state beyond := by rw [grown.new id state beyond, same.mem_iff]
  above id member := grown.above id ((same.map Prod.fst).mem_iff.mpr member)
  unique := (same.map Prod.fst).nodup_iff.mp grown.unique
  size := grown.size
  oldDecisions := grown.oldDecisions
  newDecisions number id beyond := by simp only [grown.newDecisions number id beyond, same.mem_iff]
  numbered id state number member := grown.numbered id state number (same.mem_iff.mpr member)
  decisions := grown.decisions
  others := grown.others
  rule := grown.rule
  loopChecks := grown.loopChecks
  optionalChecks := grown.optionalChecks
  journal := grown.journal

/-- What a change must leave alone to be none of the growth. -/
structure Unmoved (first second : Construction) : Prop where
  network : second.network = first.network
  rule : second.rule = first.rule
  loopChecks : second.loopChecks = first.loopChecks
  optionalChecks : second.optionalChecks = first.optionalChecks
  journal : first.journal.Continues second.journal

theorem unmoved (grown : Grown before middle heap loops optionals) (same : Unmoved middle after) :
    Grown before after heap loops optionals where
  old := by rw [same.network]; exact grown.old
  new := by rw [same.network]; exact grown.new
  above := grown.above
  unique := grown.unique
  size := by rw [same.network]; exact grown.size
  oldDecisions := by rw [same.network]; exact grown.oldDecisions
  newDecisions := by rw [same.network]; exact grown.newDecisions
  numbered := grown.numbered
  decisions := by rw [same.network]; exact grown.decisions
  others := by rw [same.network]; exact grown.others
  rule := by rw [same.rule, grown.rule]
  loopChecks := by rw [same.loopChecks, grown.loopChecks]
  optionalChecks := by rw [same.optionalChecks, grown.optionalChecks]
  journal := grown.journal.trans same.journal

theorem useCommands (grown : Grown before after heap loops optionals) (used : List String) :
    Grown before { after with usedCommands := used } heap loops optionals :=
  grown.unmoved ⟨rfl, rfl, rfl, rfl, .refl _⟩

/-- What has grown does so as well if there were some more flaws to begin with. -/
theorem flawed (grown : Grown before after heap loops optionals) (count : Nat) :
    Grown (before.flawed count) (after.flawed count) heap loops optionals :=
  { grown with journal := grown.journal.flawed count }

/-- A flaw that is reported makes up for one that is taken to be there already. -/
theorem flaw (grown : Grown before middle heap loops optionals) (same : Unmoved middle after)
    (reported : middle.journal.flaws < after.journal.flaws) :
    Grown (before.flawed 1) after heap loops optionals :=
  { grown.unmoved same with
    journal :=
      ⟨by simpa using (grown.unmoved same).journal.closing,
        by simpa [Nat.succ_le_iff] using Nat.lt_of_le_of_lt grown.journal.flaws reported⟩ }

theorem addState (grown : Grown before after heap loops optionals) (state : State)
    (undecided : state.decision = none) :
    Grown before { after with network := after.network.addState state }
      (heap ++ [(after.network.nextId, state)]) loops optionals where
  old id bound := by
    have different : id ≠ after.network.nextId := Nat.ne_of_lt (Nat.lt_of_lt_of_le bound grown.size)
    simp [different, grown.old id bound]
  new id other beyond := by
    simp only [Network.state?_addState, List.mem_append, List.mem_singleton, Prod.mk.injEq]
    by_cases same : id = after.network.nextId
    · have absent : (id, other) ∉ heap := fun member =>
        absurd (grown.below (Heap.mem_ids_of_mem member)) (by rw [same]; exact Nat.lt_irrefl _)
      subst same
      simp [absent, eq_comm]
    · simp [same, grown.new id other beyond]
  above id member := by
    simp only [Heap.ids_append, Heap.ids_cons, Heap.ids_nil, List.mem_append, List.mem_singleton] at member
    exact member.elim (grown.above id) fun same => same ▸ grown.size
  unique := by
    simp only [Heap.ids_append, Heap.ids_cons, Heap.ids_nil, List.nodup_append, List.mem_singleton]
    refine ⟨grown.unique, by simp, fun id member other same equal => ?_⟩
    exact absurd (grown.below member) (by rw [equal, same]; exact Nat.lt_irrefl _)
  size := by simpa using Nat.le_succ_of_le grown.size
  oldDecisions := grown.oldDecisions
  newDecisions number id beyond := by
    rw [Network.addState, grown.newDecisions number id beyond]
    simp only [List.mem_append, List.mem_singleton, Prod.mk.injEq]
    constructor
    · rintro ⟨other, member, decided⟩
      exact ⟨other, Or.inl member, decided⟩
    · rintro ⟨other, member | ⟨_, rfl⟩, decided⟩
      · exact ⟨other, member, decided⟩
      · simp [undecided] at decided
  numbered id other number member decided := by
    simp only [List.mem_append, List.mem_singleton, Prod.mk.injEq] at member
    rcases member with here | ⟨_, rfl⟩
    · exact grown.numbered id other number here decided
    · simp [undecided] at decided
  decisions := grown.decisions
  others := by
    have others := grown.others
    simp only [Network.addState]
    rw [others]
  rule := grown.rule
  loopChecks := grown.loopChecks
  optionalChecks := grown.optionalChecks
  journal := grown.journal

theorem newState (grown : Grown before after heap loops optionals) (kind : StateKind) :
    Grown before { after with network := after.network.addState { rule := after.rule, kind } }
      (heap ++ [(after.network.nextId, { rule := before.rule, kind })]) loops optionals := by
  have added := grown.addState { rule := after.rule, kind } rfl
  simpa only [grown.rule] using added

/-- The new states can be changed and taken out, as long as this leaves the decisions alone. -/
theorem rearrange (grown : Grown before after heap loops optionals) {changed : Network} {other : Heap}
    (outside : ∀ id ∉ heap.ids, changed.state? id = after.network.state? id)
    (inside : ∀ id ∈ heap.ids, ∀ state, changed.state? id = some state ↔ (id, state) ∈ other)
    (subset : ∀ id ∈ other.ids, id ∈ heap.ids) (unique : other.ids.Nodup)
    (decided : ∀ id number, (∃ state, (id, state) ∈ other ∧ state.decision = some number) ↔
      ∃ state, (id, state) ∈ heap ∧ state.decision = some number)
    (others : changed = { after.network with states := changed.states })
    (size : changed.nextId = after.network.nextId) :
    Grown before { after with network := changed } other loops optionals where
  old id bound := by
    have absent : id ∉ heap.ids := fun member => absurd (grown.above id member) (Nat.not_le_of_lt bound)
    rw [outside id absent, grown.old id bound]
  new id state beyond := by
    by_cases member : id ∈ heap.ids
    · exact inside id member state
    · rw [outside id member, grown.new id state beyond]
      exact ⟨fun here => absurd (Heap.mem_ids_of_mem here) member,
        fun here => absurd (subset id (Heap.mem_ids_of_mem here)) member⟩
  above id member := grown.above id (subset id member)
  unique := unique
  size := by rw [size]; exact grown.size
  oldDecisions := by rw [others]; exact grown.oldDecisions
  newDecisions number id beyond := by
    rw [others]
    exact (grown.newDecisions number id beyond).trans (decided id number).symm
  numbered id state number member has := by
    obtain ⟨old, inside, decides⟩ := (decided id number).mp ⟨state, member, has⟩
    exact grown.numbered id old number inside decides
  decisions := by rw [others]; exact grown.decisions
  others := by rw [others, grown.others]
  rule := grown.rule
  loopChecks := grown.loopChecks
  optionalChecks := grown.optionalChecks
  journal := grown.journal

theorem modifyState (grown : Grown before after heap loops optionals) (id : StateId)
    (change : State → State) (keeps : ∀ state, (change state).decision = state.decision)
    (member : id ∈ heap.ids) :
    Grown before { after with network := after.network.modifyState id change }
      (heap.modify id change) loops optionals := by
  apply grown.rearrange
  · intro other absent
    have different : other ≠ id := fun same => absent (same ▸ member)
    simp [different]
  · intro other present state
    rw [Network.state?_modifyState, Heap.mem_modify]
    by_cases same : other = id
    · subst same
      simp only [↓reduceIte, Option.map_eq_some_iff, ne_eq, not_true_eq_false, false_and, true_and, false_or]
      simp only [grown.new other _ (grown.above other present), eq_comm]
    · simp [same, grown.new other state (grown.above other present)]
  · simp
  · simpa using grown.unique
  · intro other number
    simp only [Heap.mem_modify]
    constructor
    · rintro ⟨state, ⟨_, inside⟩ | ⟨_, old, inside, rfl⟩, decided⟩
      · exact ⟨state, inside, decided⟩
      · exact ⟨old, inside, keeps old ▸ decided⟩
    · rintro ⟨state, inside, decided⟩
      by_cases same : other = id
      · exact ⟨change state, Or.inr ⟨same, state, inside, rfl⟩, (keeps state).symm ▸ decided⟩
      · exact ⟨state, Or.inl ⟨same, inside⟩, decided⟩
  · rfl
  · simp

theorem removeState (grown : Grown before after heap loops optionals) (id : StateId) (state : State)
    (member : (id, state) ∈ heap) (undecided : state.decision = none) :
    Grown before { after with network := after.network.removeState id } (heap.remove id) loops optionals := by
  apply grown.rearrange
  · intro other absent
    have different : other ≠ id := fun same => absent (same ▸ Heap.mem_ids_of_mem member)
    simp [different]
  · intro other present state
    rw [Network.state?_removeState, Heap.mem_remove]
    by_cases same : other = id
    · simp [same]
    · simp [same, grown.new other state (grown.above other present)]
  · intro other present
    rw [Heap.ids_remove] at present
    exact (List.mem_filter.mp present).1
  · rw [Heap.ids_remove]
    exact grown.unique.filter _
  · intro other number
    simp only [Heap.mem_remove]
    constructor
    · rintro ⟨found, ⟨_, inside⟩, decided⟩
      exact ⟨found, inside, decided⟩
    · rintro ⟨found, inside, decided⟩
      refine ⟨found, ⟨?_, inside⟩, decided⟩
      rintro rfl
      rw [Heap.eq_of_mem grown.unique inside member, undecided] at decided
      cases decided
  · rfl
  · simp

theorem pushDecision (grown : Grown before after heap loops optionals) (id : StateId) {state : State}
    (member : (id, state) ∈ heap) (undecided : state.decision = none) :
    Grown before { after with network := after.network.pushDecision id }
      (heap.modify id fun state => { state with decision := some after.network.decisions.size })
      loops optionals where
  old other bound := by
    have different : other ≠ id := by
      rintro rfl
      exact absurd (grown.above other (Heap.mem_ids_of_mem member)) (Nat.not_le_of_lt bound)
    simp [different, grown.old other bound]
  new other found beyond := by
    rw [Network.state?_pushDecision, Heap.mem_modify]
    by_cases same : other = id
    · subst same
      simp only [↓reduceIte, Option.map_eq_some_iff, ne_eq, not_true_eq_false, false_and, true_and, false_or]
      simp only [grown.new other _ beyond, eq_comm]
    · simp [same, grown.new other found beyond]
  above := by simpa using grown.above
  unique := by simpa using grown.unique
  size := by simpa using grown.size
  oldDecisions number bound := by
    have present := Nat.lt_of_lt_of_le bound grown.decisions
    rw [Network.decisions_pushDecision, Array.getElem?_push, if_neg (Nat.ne_of_lt present)]
    exact grown.oldDecisions number bound
  newDecisions number other beyond := by
    have unused : ∀ found, (other, found) ∈ heap → found.decision ≠ some after.network.decisions.size := by
      intro found inside decided
      have listed := (grown.newDecisions _ other grown.decisions).mpr ⟨found, inside, decided⟩
      simp at listed
    rw [Network.decisions_pushDecision, Array.getElem?_push,
      Heap.decided_modify grown.unique member undecided unused]
    split
    · exact Option.some_inj
    · exact grown.newDecisions number other beyond
  numbered other found number inside decided := by
    rcases Heap.mem_modify.mp inside with ⟨_, inside⟩ | ⟨_, _, _, rfl⟩
    · exact grown.numbered other found number inside decided
    · cases decided
      exact grown.decisions
  decisions := by
    rw [Network.decisions_pushDecision, Array.size_push]
    exact Nat.le_succ_of_le grown.decisions
  others := by
    have others := grown.others
    simp only [Network.pushDecision, Network.modifyState]
    rw [others]
  rule := grown.rule
  loopChecks := grown.loopChecks
  optionalChecks := grown.optionalChecks
  journal := grown.journal

theorem modifyAt (ahead : Heap) {behind : Heap} {id : StateId} {state : State}
    (grown : Grown before after (ahead ++ (id, state) :: behind) loops optionals)
    (change : State → State) (keeps : ∀ state, (change state).decision = state.decision) :
    Grown before { after with network := after.network.modifyState id change }
      (ahead ++ (id, change state) :: behind) loops optionals := by
  have unique := grown.unique
  simp only [Heap.ids_append, Heap.ids_cons] at unique
  have notAhead : id ∉ ahead.ids := by grind
  have notBehind : id ∉ behind.ids := by grind
  simpa [Heap.modify_of_notMem notAhead, Heap.modify_of_notMem notBehind] using
    grown.modifyState id change keeps (by simp)

theorem decideAt (ahead : Heap) {behind : Heap} {id : StateId} {state : State}
    (grown : Grown before after (ahead ++ (id, state) :: behind) loops optionals)
    (undecided : state.decision = none) :
    Grown before { after with
        network := after.network.pushDecision id
        journal := after.journal.note (.decisionDefined id after.network.decisions.size) }
      (ahead ++ (id, { state with decision := some after.network.decisions.size }) :: behind)
      loops optionals := by
  have unique := grown.unique
  simp only [Heap.ids_append, Heap.ids_cons] at unique
  have notAhead : id ∉ ahead.ids := by grind
  have notBehind : id ∉ behind.ids := by grind
  have decided := grown.pushDecision id (by simp) undecided
  simp only [Heap.modify_append, Heap.modify_cons, ↓reduceIte, Heap.modify_of_notMem notAhead,
    Heap.modify_of_notMem notBehind] at decided
  exact decided.unmoved ⟨rfl, rfl, rfl, rfl, .note ..⟩

theorem addLoopCheck (grown : Grown before after heap loops optionals) (check : Check) :
    Grown before { after with loopChecks := after.loopChecks.push check } heap (loops ++ [check]) optionals :=
  { grown with loopChecks := by simp [grown.loopChecks] }

theorem addOptionalCheck (grown : Grown before after heap loops optionals) (check : Check) :
    Grown before { after with optionalChecks := after.optionalChecks.push check } heap loops
      (optionals ++ [check]) :=
  { grown with optionalChecks := by simp [grown.optionalChecks] }

theorem isLive (grown : Grown before after heap loops optionals) {id : StateId} (member : id ∈ heap.ids) :
    after.network.isLive id = true := by
  obtain ⟨state, inside⟩ := Heap.mem_ids.mp member
  exact after.network.isLive_iff.mpr ⟨state, grown.holds id state inside⟩

theorem staysLive (grown : Grown before after heap loops optionals) {id : StateId}
    (live : before.network.isLive id = true) : after.network.isLive id = true := by
  obtain ⟨state, found⟩ := before.network.isLive_iff.mp live
  refine after.network.isLive_iff.mpr ⟨state, ?_⟩
  rw [grown.old id (before.network.lt_nextId_of_state? found), found]

theorem moored (grown : Grown before after heap loops optionals)
    (moored : before.network.Moored before.rule) : after.network.Moored after.rule := by
  intro index id found
  rw [grown.ruleStarts] at found
  obtain ⟨state, stop, leftRecursive, live, kind, silent⟩ := moored index id found
  refine ⟨state, stop, leftRecursive, ?_, kind, ?_⟩
  · rw [grown.old id (before.network.lt_nextId_of_state? live), live]
  · rw [grown.rule]
    exact silent

section Rules

open Build

variable {α : Type} {bad : Failure → Prop}

theorem meets_newState (grown : Grown before after heap loops optionals) {kind : StateKind}
    {good : StateId → Construction → Prop}
    (next : ∀ id later, after.network.nextId ≤ id →
      Grown before later (heap ++ [(id, { rule := before.rule, kind })]) loops optionals → good id later) :
    Meets (Build.newState kind) after good bad :=
  next _ _ (Nat.le_refl _) (grown.newState kind)

theorem meets_changeState (ahead : Heap) {behind : Heap} {id : StateId} {state : State}
    (grown : Grown before after (ahead ++ (id, state) :: behind) loops optionals) {change : State → State}
    {good : Unit → Construction → Prop}
    (next : ∀ later, Grown before later (ahead ++ (id, change state) :: behind) loops optionals →
      good () later)
    (keeps : ∀ state, (change state).decision = state.decision := by intro; rfl) :
    Meets (changeState id change) after good bad :=
  (Build.meets_changeState (grown.isLive (by simp))).mpr (next _ (grown.modifyAt ahead change keeps))

theorem meets_addTransition (ahead : Heap) {behind : Heap} {id : StateId} {state : State}
    {transition : Transition} (grown : Grown before after (ahead ++ (id, state) :: behind) loops optionals)
    {good : Unit → Construction → Prop}
    (next : ∀ later, Grown before later (ahead ++ (id, { state with
      transitions := state.transitions ++ [transition] }) :: behind) loops optionals → good () later) :
    Meets (addTransition id transition) after good bad :=
  (Build.meets_addTransition (grown.isLive (by simp))).mpr
    (next _ (grown.modifyAt ahead (fun state =>
      { state with transitions := state.transitions ++ [transition] }) fun _ => rfl))

theorem meets_epsilon (ahead : Heap) {behind : Heap} {id target : StateId} {state : State}
    (grown : Grown before after (ahead ++ (id, state) :: behind) loops optionals)
    {good : Unit → Construction → Prop}
    (next : ∀ later, Grown before later (ahead ++ (id, state.extend target) :: behind) loops optionals →
      good () later) : Meets (epsilon id target) after good bad :=
  (Build.meets_epsilon (grown.isLive (by simp))).mpr
    (next _ (grown.modifyAt ahead (State.extend target) fun _ => rfl))

theorem meets_defineDecision (ahead : Heap) {behind : Heap} {id : StateId} {state : State}
    (grown : Grown before after (ahead ++ (id, state) :: behind) loops optionals)
    {good : Nat → Construction → Prop}
    (next : ∀ number later, Grown before later
      (ahead ++ (id, { state with decision := some number }) :: behind) loops optionals →
      good number later)
    (undecided : state.decision = none := by rfl) : Meets (defineDecision id) after good bad :=
  (Build.meets_defineDecision (grown.holds id state (by simp)) undecided).mpr
    (next _ _ (grown.decideAt ahead undecided))

theorem meets_report (grown : Grown before after heap loops optionals) {plan : Plan} {problem : Problem}
    {position : Option Position} {arguments : List String} (early : problem.isClosing = false)
    {good : Unit → Construction → Prop}
    (next : ∀ later, Grown before later heap loops optionals → good () later) :
    Meets (report plan problem position arguments) after good bad :=
  next _ (grown.unmoved ⟨rfl, rfl, rfl, rfl, Journal.Continues.report _ early⟩)

end Rules

end Grown

end GrammarNetwork
