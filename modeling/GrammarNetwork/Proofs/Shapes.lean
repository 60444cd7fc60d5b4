import GrammarNetwork.Proofs.Blocks

/-! Shapes of trails: how many gaps a trail has, and whether all its blocks have alternatives with states of
their own. Neither depends on the numbers of the states, and taking out tails changes neither. -/

namespace GrammarNetwork

mutual

/-- The number of states that lead nowhere. -/
def Trail.gaps : Trail → Nat
  | .done => 0
  | .step _ _ rest => rest.gaps
  | .gap _ rest => rest.gaps + 1
  | .block _ _ _ ways rest => ways.gaps + rest.gaps

def Ways.gaps : Ways → Nat
  | .none => 0
  | .more way rest => way.gaps + rest.gaps

end

mutual

/-- Every block has an alternative, and every alternative has a state of its own. -/
def Trail.Filled : Trail → Prop
  | .done => True
  | .step _ _ rest => rest.Filled
  | .gap _ rest => rest.Filled
  | .block _ _ _ ways rest => ways ≠ .none ∧ ways.Filled ∧ rest.Filled

def Ways.Filled : Ways → Prop
  | .none => True
  | .more way rest => way ≠ .done ∧ way.Filled ∧ rest.Filled

end

mutual

@[simp] theorem Trail.gaps_erase : ∀ (trail : Trail), trail.erase.gaps = trail.gaps
  | .done => rfl
  | .step _ _ rest => rest.gaps_erase
  | .gap _ rest => by simp [Trail.erase, Trail.gaps, rest.gaps_erase]
  | .block _ _ _ ways rest => by simp [Trail.erase, Trail.gaps, ways.gaps_erase, rest.gaps_erase]

@[simp] theorem Ways.gaps_erase : ∀ (ways : Ways), ways.erase.gaps = ways.gaps
  | .none => rfl
  | .more way rest => by simp [Ways.erase, Ways.gaps, way.gaps_erase, rest.gaps_erase]

end

@[simp] theorem Trail.erase_eq_done {trail : Trail} : trail.erase = .done ↔ trail = .done := by
  cases trail <;> simp [Trail.erase]

@[simp] theorem Ways.erase_eq_none {ways : Ways} : ways.erase = .none ↔ ways = .none := by
  cases ways <;> simp [Ways.erase]

mutual

@[simp] theorem Trail.filled_erase : ∀ (trail : Trail), trail.erase.Filled ↔ trail.Filled
  | .done => Iff.rfl
  | .step _ _ rest => rest.filled_erase
  | .gap _ rest => rest.filled_erase
  | .block _ _ _ ways rest => by simp [Trail.erase, Trail.Filled, ways.filled_erase, rest.filled_erase]

@[simp] theorem Ways.filled_erase : ∀ (ways : Ways), ways.erase.Filled ↔ ways.Filled
  | .none => Iff.rfl
  | .more way rest => by simp [Ways.erase, Ways.Filled, way.filled_erase, rest.filled_erase]

end

theorem Trail.gaps_of_passes {trail : Trail} (passes : trail.passes = true) : trail.gaps = 0 := by
  obtain ⟨source, label, rfl, _⟩ := Trail.passes_eq_true.mp passes
  rfl

mutual

theorem Trail.gaps_strip (other : Bool) : ∀ (trail : Trail), (trail.strip other).gaps = trail.gaps
  | .done => rfl
  | .step source label rest => by
      rw [Trail.strip]
      split
      · rename_i taken
        rw [Bool.and_eq_true] at taken
        exact (Trail.gaps_of_passes taken.2).symm
      · split
        · rfl
        · exact rest.gaps_strip other
  | .gap _ _ => rfl
  | .block frame start exit ways rest => by
      rw [Trail.strip, Trail.gaps, ways.gaps_strip]
      split
      · rw [rest.gaps_strip other, Trail.gaps]
      · rfl

theorem Ways.gaps_strip (other : Bool) : ∀ (ways : Ways), (ways.strip other).gaps = ways.gaps
  | .none => rfl
  | .more way rest => by rw [Ways.strip, Ways.gaps, way.gaps_strip, rest.gaps_strip, Ways.gaps]

end

theorem Trail.strip_eq_done {other : Bool} {trail : Trail} : trail.strip other = .done ↔ trail = .done := by
  rw [← Trail.first?_eq_none, Trail.first?_strip, Trail.first?_eq_none]

theorem Ways.strip_eq_none {other : Bool} {ways : Ways} : ways.strip other = .none ↔ ways = .none := by
  cases ways <;> simp [Ways.strip]

mutual

theorem Trail.filled_strip (other : Bool) : ∀ (trail : Trail), trail.Filled → (trail.strip other).Filled
  | .done, filled => filled
  | .step source label rest, filled => by
      rw [Trail.strip]
      split
      · trivial
      · split
        · exact filled
        · exact rest.filled_strip other filled
  | .gap _ _, filled => filled
  | .block frame start exit ways rest, filled => by
      obtain ⟨some, inside, behind⟩ := filled
      refine ⟨mt Ways.strip_eq_none.mp some, ways.filled_strip _ inside, ?_⟩
      split
      · exact rest.filled_strip other behind
      · exact behind

theorem Ways.filled_strip (other : Bool) : ∀ (ways : Ways), ways.Filled → (ways.strip other).Filled
  | .none, filled => filled
  | .more way rest, filled => by
      obtain ⟨some, inside, behind⟩ := filled
      exact ⟨mt Trail.strip_eq_done.mp some, way.filled_strip other inside, rest.filled_strip other behind⟩

end

section Joining

variable {trail next : Trail}

theorem Trail.gaps_append (next : Trail) : ∀ (trail : Trail), (trail.append next).gaps = trail.gaps + next.gaps
  | .done => (Nat.zero_add _).symm
  | .step _ _ rest => Trail.gaps_append next rest
  | .gap _ rest => by
      rw [Trail.append, Trail.gaps, Trail.gaps_append next rest, Trail.gaps]
      omega
  | .block _ _ _ ways rest => by
      rw [Trail.append, Trail.gaps, Trail.gaps_append next rest, Trail.gaps]
      omega

theorem Trail.gaps_join (trail next : Trail) : (trail.join next).gaps = trail.gaps + next.gaps := by
  unfold Trail.join
  cases single : trail.single? with
  | none => exact Trail.gaps_append next trail
  | some found =>
      obtain ⟨target, last, rfl⟩ := Trail.single?_eq_some.mp single
      exact (Nat.zero_add _).symm

theorem Trail.gaps_joinAll : ∀ (trails : List Trail), (joinAll trails).gaps = (Ways.ofList trails).gaps
  | [] => rfl
  | [trail] => rfl
  | trail :: next :: rest => by
      rw [joinAll, gaps_join, gaps_joinAll (next :: rest)]
      rfl

theorem Trail.filled_append (following : next.Filled) : ∀ (trail : Trail), trail.Filled → (trail.append next).Filled
  | .done, _ => following
  | .step _ _ rest, filled => Trail.filled_append following rest filled
  | .gap _ rest, filled => Trail.filled_append following rest filled
  | .block _ _ _ _ rest, filled => ⟨filled.1, filled.2.1, Trail.filled_append following rest filled.2.2⟩

theorem Trail.append_ne_done (some : trail ≠ .done) : trail.append next ≠ .done := by
  cases trail with
  | done => exact absurd rfl some
  | _ => simp [Trail.append]

/-- The trail has a state, and so has every alternative in it. -/
structure Trail.Solid (trail : Trail) : Prop where
  some : trail ≠ .done
  filled : trail.Filled

theorem Trail.Solid.append (first : trail.Solid) (second : next.Solid) : (trail.append next).Solid :=
  ⟨append_ne_done first.some, Trail.filled_append second.filled trail first.filled⟩

theorem Trail.Solid.join (first : trail.Solid) (second : next.Solid) : (trail.join next).Solid := by
  unfold Trail.join
  cases single : trail.single? with
  | none => exact first.append second
  | some found => exact ⟨by simp, second.filled⟩

theorem Trail.Solid.joinAll : ∀ {trails : List Trail}, (∀ trail ∈ trails, trail.Solid) → trails ≠ [] →
    (Trail.joinAll trails).Solid
  | [], _, some => absurd rfl some
  | [trail], solid, _ => solid trail (by simp)
  | trail :: next :: rest, solid, _ => by
      rw [List.forall_mem_cons] at solid
      exact solid.1.join (Trail.Solid.joinAll solid.2 (by simp))

end Joining

section Blocks

theorem Ways.gaps_ofList_map {change : Trail → Trail} (same : ∀ trail, (change trail).gaps = trail.gaps)
    (trails : List Trail) : (Ways.ofList (trails.map change)).gaps = (Ways.ofList trails).gaps := by
  induction trails with
  | nil => rfl
  | cons trail trails ih => simp [Ways.ofList, Ways.gaps, same, ih]

theorem Ways.gaps_ofList_eq_zero {trails : List Trail} (gapless : ∀ trail ∈ trails, trail.gaps = 0) :
    (Ways.ofList trails).gaps = 0 := by
  induction trails with
  | nil => rfl
  | cons trail trails ih =>
      rw [List.forall_mem_cons] at gapless
      rw [Ways.ofList, Ways.gaps, gapless.1, ih gapless.2]

theorem Ways.filled_ofList {trails : List Trail} (solid : ∀ trail ∈ trails, trail.Solid) :
    (Ways.ofList trails).Filled := by
  induction trails with
  | nil => trivial
  | cons trail trails ih =>
      rw [List.forall_mem_cons] at solid
      exact ⟨solid.1.some, solid.1.filled, ih solid.2⟩

/-- How often the alternatives are repeated. -/
def Frame.repetition? : Frame → Option Repetition
  | .plain _ => none
  | .optional _ _ => some .optional
  | .star _ _ _ _ _ _ => some .star
  | .plus _ _ _ _ _ => some .plus

variable {suffix : Option Suffix} {trails : List Trail} {trail : Trail}

/-- A block is its only alternative, or has a frame for its suffix around its stripped alternatives. -/
theorem Trail.ofBlock_cases (drawn : Trail.ofBlock suffix trails = some trail) :
    (suffix = none ∧ trails = [trail]) ∨ ∃ frame other,
      trail = .block frame 0 0 (Ways.ofList (trails.map (Trail.strip other))) .done ∧ trails ≠ [] ∧
        frame.repetition? = suffix.map Suffix.repetition := by
  cases trails with
  | nil => cases drawn
  | cons first rest =>
      simp only [Trail.ofBlock] at drawn
      split at drawn
      · split at drawn
        · rename_i single
          cases drawn
          exact Or.inl ⟨rfl, by simpa using single⟩
        · cases drawn
          exact Or.inr ⟨_, _, rfl, by simp, rfl⟩
      all_goals
        cases drawn
        exact Or.inr ⟨_, _, rfl, by simp, rfl⟩

theorem Trail.gaps_ofBlock (drawn : Trail.ofBlock suffix trails = some trail) :
    trail.gaps = (Ways.ofList trails).gaps := by
  rcases Trail.ofBlock_cases drawn with ⟨_, rfl⟩ | ⟨frame, other, rfl, _⟩
  · rfl
  · exact Ways.gaps_ofList_map (Trail.gaps_strip other) trails

theorem Trail.solid_ofBlock (drawn : Trail.ofBlock suffix trails = some trail)
    (solid : ∀ trail ∈ trails, trail.Solid) : trail.Solid := by
  rcases Trail.ofBlock_cases drawn with ⟨_, rfl⟩ | ⟨frame, other, rfl, several, _⟩
  · exact solid trail (by simp)
  · refine ⟨by simp, ?_, Ways.filled_ofList ?_, trivial⟩
    · cases trails with
      | nil => exact absurd rfl several
      | cons first rest => simp [Ways.ofList]
    · intro stripped member
      obtain ⟨original, listed, rfl⟩ := List.mem_map.mp member
      have before := solid original listed
      exact ⟨mt Trail.strip_eq_done.mp before.some, original.filled_strip other before.filled⟩

end Blocks

/-- The alternatives one by one. -/
def Ways.toList : Ways → List Trail
  | .none => []
  | .more way rest => way :: rest.toList

/-- One trail is an end of the other, or of an alternative inside it. -/
inductive Trail.Inside (inner : Trail) : Trail → Prop where
  | here : Inside inner inner
  | step {source : StateId} {label : Label} {rest : Trail} (behind : Inside inner rest) :
      Inside inner (.step source label rest)
  | gap {source : StateId} {rest : Trail} (behind : Inside inner rest) : Inside inner (.gap source rest)
  | behind {frame : Frame} {start exit : StateId} {ways : Ways} {rest : Trail} (behind : Inside inner rest) :
      Inside inner (.block frame start exit ways rest)
  | within {frame : Frame} {start exit : StateId} {ways : Ways} {rest way : Trail} (listed : way ∈ ways.toList)
      (within : Inside inner way) : Inside inner (.block frame start exit ways rest)

mutual

theorem Trail.inside_of_blocks {kind : Frame → Bool} {block : Handle × Ways} : ∀ (trail : Trail),
    block ∈ trail.blocks kind → ∃ frame rest, kind frame = true ∧
      Trail.Inside (.block frame block.1.left block.1.right block.2 rest) trail
  | .step _ _ rest, member => by
      obtain ⟨frame, behind, wanted, inside⟩ := rest.inside_of_blocks member
      exact ⟨frame, behind, wanted, inside.step⟩
  | .gap _ rest, member => by
      obtain ⟨frame, behind, wanted, inside⟩ := rest.inside_of_blocks member
      exact ⟨frame, behind, wanted, inside.gap⟩
  | .block frame start exit ways rest, member => by
      simp only [Trail.blocks, List.mem_append] at member
      rcases member with inner | here | later
      · obtain ⟨way, listed, frame, behind, wanted, inside⟩ := ways.inside_of_blocks inner
        exact ⟨frame, behind, wanted, inside.within listed⟩
      · split at here
        · rename_i wanted
          obtain rfl := List.mem_singleton.mp here
          exact ⟨frame, rest, wanted, .here⟩
        · simp at here
      · obtain ⟨frame, behind, wanted, inside⟩ := rest.inside_of_blocks later
        exact ⟨frame, behind, wanted, inside.behind⟩

theorem Ways.inside_of_blocks {kind : Frame → Bool} {block : Handle × Ways} : ∀ (ways : Ways),
    block ∈ ways.blocks kind → ∃ way ∈ ways.toList, ∃ frame rest, kind frame = true ∧
      Trail.Inside (.block frame block.1.left block.1.right block.2 rest) way
  | .more way rest, member => by
      rcases List.mem_append.mp member with here | later
      · exact ⟨way, List.mem_cons_self, way.inside_of_blocks here⟩
      · obtain ⟨other, listed, found⟩ := rest.inside_of_blocks later
        exact ⟨other, List.mem_cons_of_mem _ listed, found⟩

end

theorem Frame.mem_startTargets {frame : Frame} {exit entry : StateId} {entries : List StateId}
    (listed : entry ∈ entries) : entry ∈ frame.startTargets exit entries := by
  unfold Frame.startTargets
  split
  · split <;> simp [listed]
  · exact listed

theorem Network.Holds.startState {network : Network} {frame : Frame} {rule : Option Nat} {start exit : StateId}
    {entries : List StateId} {next : Option StateId}
    (holds : network.Holds (frame.states rule start exit entries next)) :
    network.state? start = some (frame.startState rule exit entries) :=
  holds start _ (List.mem_cons_self ..)

theorem Network.Holds.exitState {network : Network} {frame : Frame} {rule : Option Nat} {start exit : StateId}
    {entries : List StateId} {next : Option StateId}
    (holds : network.Holds (frame.states rule start exit entries next)) :
    network.state? exit = some (frame.exitState rule start next) :=
  holds exit _ (List.mem_cons_of_mem _ (List.mem_cons_self ..))

theorem Ways.holds_of_mem {network : Network} {starts : Array StateId} {rule : Option Nat} {exit : StateId}
    {way : Trail} : ∀ {ways : Ways}, network.Holds (ways.layout starts rule exit) → way ∈ ways.toList →
    network.Holds (way.layout starts rule (some exit))
  | .more first rest, holds, listed => by
      simp only [Ways.layout, Network.holds_append] at holds
      rcases List.mem_cons.mp listed with rfl | later
      · exact holds.1
      · exact Ways.holds_of_mem holds.2 later

theorem Ways.filled_of_mem {way : Trail} : ∀ {ways : Ways}, ways.Filled → way ∈ ways.toList →
    way ≠ .done ∧ way.Filled
  | .more first rest, filled, listed => by
      rcases List.mem_cons.mp listed with rfl | later
      · exact ⟨filled.1, filled.2.1⟩
      · exact Ways.filled_of_mem filled.2.2 later

theorem Ways.ids_of_mem {way : Trail} : ∀ {ways : Ways}, way ∈ ways.toList → way.ids.Sublist ways.ids
  | .more first rest, listed => by
      rcases List.mem_cons.mp listed with rfl | later
      · exact List.sublist_append_left _ _
      · exact (Ways.ids_of_mem later).trans (List.sublist_append_right _ _)

theorem Ways.labels_of_mem {way : Trail} {label : Label} : ∀ {ways : Ways}, way ∈ ways.toList →
    label ∈ way.labels → label ∈ ways.labels
  | .more first rest, listed, member => by
      rcases List.mem_cons.mp listed with rfl | later
      · exact List.mem_append_left _ member
      · exact List.mem_append_right _ (Ways.labels_of_mem later member)

namespace Trail.Inside

variable {inner outer : Trail}

theorem holds {network : Network} {starts : Array StateId} {rule : Option Nat} (inside : inner.Inside outer) :
    ∀ {next : StateId}, network.Holds (outer.layout starts rule (some next)) →
    ∃ next, network.Holds (inner.layout starts rule (some next)) := by
  induction inside with
  | here => exact fun holds => ⟨_, holds⟩
  | step _ ih => exact fun holds => ih (Network.holds_cons.mp holds).2
  | gap _ ih => exact fun holds => ih (Network.holds_cons.mp holds).2
  | behind _ ih => exact fun holds => ih (Network.holds_append.mp (Network.holds_append.mp holds).2).2
  | within listed _ ih =>
      exact fun holds => ih (Ways.holds_of_mem (Network.holds_append.mp (Network.holds_append.mp holds).2).1 listed)

theorem filled (inside : inner.Inside outer) (filled : outer.Filled) : inner.Filled := by
  induction inside with
  | here => exact filled
  | step _ ih => exact ih filled
  | gap _ ih => exact ih filled
  | behind _ ih => exact ih filled.2.2
  | within listed _ ih => exact ih (Ways.filled_of_mem filled.2.1 listed).2

theorem ids (inside : inner.Inside outer) : inner.ids.Sublist outer.ids := by
  induction inside with
  | here => exact List.Sublist.refl _
  | step _ ih => exact ih.trans (List.sublist_cons_self _ _)
  | gap _ ih => exact ih.trans (List.sublist_cons_self _ _)
  | behind _ ih => exact ih.trans ((List.sublist_append_right _ _).trans (List.sublist_append_right _ _))
  | within listed _ ih =>
      exact (ih.trans (Ways.ids_of_mem listed)).trans
        ((List.sublist_append_left _ _).trans (List.sublist_append_right _ _))

theorem labels (inside : inner.Inside outer) {label : Label} (member : label ∈ inner.labels) :
    label ∈ outer.labels := by
  induction inside with
  | here => exact member
  | step _ ih => exact List.mem_cons_of_mem _ ih
  | gap _ ih => exact ih
  | behind _ ih => exact List.mem_append_right _ ih
  | within listed _ ih => exact List.mem_append_left _ (Ways.labels_of_mem listed ih)

end Trail.Inside

/-- A state of the rule before its end. -/
def State.IsInner (rule : Option Nat) (state : State) : Prop :=
  state.rule = rule ∧ state.kind ≠ .ruleStop

instance (rule : Option Nat) (state : State) : Decidable (state.IsInner rule) :=
  inferInstanceAs (Decidable (_ ∧ _))

theorem Frame.isInner_states {rule : Option Nat} {start exit : StateId} {entries : List StateId}
    {next : Option StateId} (frame : Frame) :
    ∀ entry ∈ frame.states rule start exit entries next, entry.2.IsInner rule := by
  intro entry member
  cases frame <;>
    simp only [Frame.states, Frame.loopStates, Frame.startState, Frame.exitState, List.mem_cons,
      List.not_mem_nil, or_false] at member <;>
    rcases member with rfl | rfl | rfl | rfl | rfl <;>
    simp [State.IsInner]

mutual

theorem Trail.isInner_layout {starts : Array StateId} {rule : Option Nat} : ∀ (trail : Trail)
    {next : Option StateId}, ∀ entry ∈ trail.layout starts rule next, entry.2.IsInner rule
  | .done, _, entry, member => by simp [Trail.layout] at member
  | .step _ _ rest, next, entry, member => by
      rcases List.mem_cons.mp member with rfl | later
      · exact ⟨rfl, by simp⟩
      · exact rest.isInner_layout entry later
  | .gap _ rest, next, entry, member => by
      rcases List.mem_cons.mp member with rfl | later
      · exact ⟨rfl, by simp⟩
      · exact rest.isInner_layout entry later
  | .block frame start exit ways rest, next, entry, member => by
      simp only [Trail.layout, List.mem_append] at member
      rcases member with framed | among | later
      · exact frame.isInner_states entry framed
      · exact ways.isInner_layout entry among
      · exact rest.isInner_layout entry later

theorem Ways.isInner_layout {starts : Array StateId} {rule : Option Nat} : ∀ (ways : Ways) {exit : StateId},
    ∀ entry ∈ ways.layout starts rule exit, entry.2.IsInner rule
  | .none, _, entry, member => by simp [Ways.layout] at member
  | .more way rest, exit, entry, member => by
      rcases List.mem_append.mp member with first | later
      · exact way.isInner_layout entry first
      · exact rest.isInner_layout entry later

end

end GrammarNetwork
