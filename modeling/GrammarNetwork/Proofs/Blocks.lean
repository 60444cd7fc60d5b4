import GrammarNetwork.Proofs.Cores

/-! Blocks and loops: each operation of the construction that puts alternatives together gives the layout of
one trail, in which the alternatives are stripped. -/

namespace GrammarNetwork

/-- The decisions of the states around a block. -/
def Frame.decisions (start : StateId) : Frame → List (StateId × Nat)
  | .plain decision | .optional decision _ => [(start, decision)]
  | .star decision _ entry _ _ entryDecision =>
      (decision.toList.map fun number => (start, number)) ++ [(entry, entryDecision)]
  | .plus decision _ loopBack _ loopDecision =>
      (decision.toList.map fun number => (start, number)) ++ [(loopBack, loopDecision)]

mutual

/-- The states of a trail that are decisions, with their numbers. -/
def Trail.decisions : Trail → List (StateId × Nat)
  | .done => []
  | .step _ _ rest => rest.decisions
  | .gap _ rest => rest.decisions
  | .block frame start _ ways rest => frame.decisions start ++ (ways.decisions ++ rest.decisions)

def Ways.decisions : Ways → List (StateId × Nat)
  | .none => []
  | .more way rest => way.decisions ++ rest.decisions

end

/-- A state of the heap is the decision with this number. -/
def Heap.Decides (heap : Heap) (id : StateId) (number : Nat) : Prop :=
  ∃ state, (id, state) ∈ heap ∧ state.decision = some number

theorem Heap.decides_append {left right : Heap} {id : StateId} {number : Nat} :
    (left ++ right).Decides id number ↔ left.Decides id number ∨ right.Decides id number := by
  simp only [Heap.Decides, List.mem_append, or_and_right, exists_or]

theorem Frame.decides {rule : Option Nat} {frame : Frame} {start exit id : StateId}
    {entries : List StateId} {next : Option StateId} {number : Nat} :
    (frame.states rule start exit entries next).Decides id number ↔ (id, number) ∈ frame.decisions start := by
  cases frame <;>
    simp only [Heap.Decides, Frame.states, Frame.loopStates, Frame.startState, Frame.exitState,
      Frame.blockDecision, Frame.decisions] <;>
    grind

mutual

theorem Trail.decides {starts : Array StateId} {rule : Option Nat} {id : StateId} {number : Nat} :
    ∀ (trail : Trail) (next : Option StateId),
    (trail.layout starts rule next).Decides id number ↔ (id, number) ∈ trail.decisions
  | .done, _ => by simp [Trail.layout, Heap.Decides, Trail.decisions]
  | .step source label rest, next => by
      have inside : (rest.layout starts rule next).Decides id number ↔ _ := rest.decides next
      rw [Trail.decisions, ← inside, Trail.layout]
      simp [Heap.Decides, or_and_right, exists_or]
  | .gap source rest, next => by
      have inside : (rest.layout starts rule next).Decides id number ↔ _ := rest.decides next
      rw [Trail.decisions, ← inside, Trail.layout]
      simp [Heap.Decides, or_and_right, exists_or]
  | .block frame start exit ways rest, next => by
      simp only [Trail.layout, Heap.decides_append, Frame.decides, ways.decides exit, rest.decides next,
        Trail.decisions, List.mem_append]

theorem Ways.decides {starts : Array StateId} {rule : Option Nat} {id : StateId} {number : Nat} :
    ∀ (ways : Ways) (exit : StateId),
    (ways.layout starts rule exit).Decides id number ↔ (id, number) ∈ ways.decisions
  | .none, _ => by simp [Ways.layout, Heap.Decides, Ways.decisions]
  | .more way rest, exit => by
      simp only [Ways.layout, Heap.decides_append, way.decides (some exit), rest.decides exit,
        Ways.decisions, List.mem_append]

end

mutual

theorem Trail.decisions_strip (other : Bool) : ∀ (trail : Trail),
    (trail.strip other).decisions = trail.decisions
  | .done => rfl
  | .step source label rest => by
      rw [Trail.strip]
      split
      · rename_i strips
        obtain ⟨_, _, rfl, _⟩ := Trail.passes_eq_true.mp (Bool.and_eq_true_iff.mp strips).2
        rfl
      · split
        · rfl
        · exact rest.decisions_strip other
  | .gap source rest => rfl
  | .block frame start exit ways rest => by
      rw [Trail.strip, Trail.decisions, ways.decisions_strip]
      split
      · rw [rest.decisions_strip, Trail.decisions]
      · rfl

theorem Ways.decisions_strip (other : Bool) : ∀ (ways : Ways),
    (ways.strip other).decisions = ways.decisions
  | .none => rfl
  | .more way rest => by
      rw [Ways.strip, Ways.decisions, way.decisions_strip, rest.decisions_strip, Ways.decisions]

end

mutual

theorem Trail.blocks_strip (kind : Frame → Bool) (other : Bool) : ∀ (trail : Trail),
    ((trail.strip other).blocks kind).map Prod.fst = (trail.blocks kind).map Prod.fst
  | .done => rfl
  | .step source label rest => by
      rw [Trail.strip]
      split
      · rename_i strips
        obtain ⟨_, _, rfl, _⟩ := Trail.passes_eq_true.mp (Bool.and_eq_true_iff.mp strips).2
        rfl
      · split
        · rfl
        · exact rest.blocks_strip kind other
  | .gap source rest => rfl
  | .block frame start exit ways rest => by
      have own : ((if kind frame then [((⟨start, exit⟩ : Handle), ways.strip !frame.isStar)] else []).map
          Prod.fst) = (if kind frame then [((⟨start, exit⟩ : Handle), ways)] else []).map Prod.fst := by
        split <;> rfl
      have behind : ((if frame.skips || ways.passable then rest.strip other else rest).blocks kind).map
          Prod.fst = (rest.blocks kind).map Prod.fst := by
        split
        · exact rest.blocks_strip kind other
        · rfl
      simp only [Trail.strip, Trail.blocks, List.map_append, ways.blocks_strip, own, behind]

theorem Ways.blocks_strip (kind : Frame → Bool) (other : Bool) : ∀ (ways : Ways),
    ((ways.strip other).blocks kind).map Prod.fst = (ways.blocks kind).map Prod.fst
  | .none => rfl
  | .more way rest => by
      simp only [Ways.strip, Ways.blocks, List.map_append, way.blocks_strip, rest.blocks_strip]

end

mutual

theorem Trail.labels_strip {label : Label} (other : Bool) : ∀ (trail : Trail),
    label ∈ (trail.strip other).labels → label ∈ trail.labels
  | .done, member => member
  | .step source first rest, member => by
      rw [Trail.strip] at member
      split at member
      · simp only [Trail.labels, List.mem_cons] at member ⊢
        exact Or.inl (by simpa using member)
      · split at member
        · exact member
        · simp only [Trail.labels, List.mem_cons] at member ⊢
          exact member.imp_right (rest.labels_strip other)
  | .gap source rest, member => member
  | .block frame start exit ways rest, member => by
      simp only [Trail.strip, Trail.labels, List.mem_append] at member ⊢
      refine member.imp (ways.labels_strip _) fun inside => ?_
      split at inside
      · exact rest.labels_strip other inside
      · exact inside

theorem Ways.labels_strip {label : Label} (other : Bool) : ∀ (ways : Ways),
    label ∈ (ways.strip other).labels → label ∈ ways.labels
  | .none, member => member
  | .more way rest, member => by
      simp only [Ways.strip, Ways.labels, List.mem_append] at member ⊢
      exact member.imp (way.labels_strip other) (rest.labels_strip other)

end

theorem Heap.ids_takeOut_sublist (tails : List Tail) (heap : Heap) :
    (heap.takeOut tails).ids.Sublist heap.ids := by
  induction heap with
  | nil => exact List.Sublist.slnil
  | cons entry heap ih =>
      rw [Heap.ids_cons, Heap.takeOut, List.filterMap_cons]
      split
      · exact ih.cons _
      · rename_i kept found
        have same : kept.1 = entry.1 := by
          split at found
          · cases found
          · split at found <;> cases found <;> rfl
        rw [Heap.ids_cons, same]
        exact ih.cons_cons _

theorem Trail.ids_strip_sublist (other : Bool) {trail : Trail} (unique : trail.ids.Nodup) :
    (trail.strip other).ids.Sublist trail.ids := by
  rw [← Trail.ids_layout #[] none _ (some 0), Trail.layout_strip other trail 0 unique,
    ← Trail.ids_layout #[] none trail (some 0)]
  exact Heap.ids_takeOut_sublist _ _

/-- The list of alternatives as ways. -/
def Ways.ofList : List Trail → Ways
  | [] => .none
  | way :: rest => .more way (Ways.ofList rest)

theorem Ways.paint_ofList (marked : StateId → Bool) (trails : List Trail) :
    (Ways.ofList trails).paint marked = Ways.ofList (trails.map (Trail.paint marked)) := by
  induction trails with
  | nil => rfl
  | cons trail trails ih => simp [Ways.ofList, Ways.paint, ih]

theorem Ways.blocks_ofList (kind : Frame → Bool) (trails : List Trail) :
    (Ways.ofList trails).blocks kind = trails.flatMap fun trail => trail.blocks kind := by
  induction trails with
  | nil => rfl
  | cons trail trails ih => simp [Ways.ofList, Ways.blocks, ih]

theorem Ways.joints_ofList (trails : List Trail) :
    (Ways.ofList trails).joints = trails.flatMap Trail.joints := by
  induction trails with
  | nil => rfl
  | cons trail trails ih => simp [Ways.ofList, Ways.joints, ih]

theorem Ways.mem_labels_ofList {label : Label} {trails : List Trail} :
    label ∈ (Ways.ofList trails).labels ↔ ∃ trail ∈ trails, label ∈ trail.labels := by
  induction trails with
  | nil => simp [Ways.ofList, Ways.labels]
  | cons trail trails ih => simp [Ways.ofList, Ways.labels, ih]

theorem Ways.core_ofList (trails : List Trail) : (Ways.ofList trails).core = trails.flatMap (Trail.core false) := by
  induction trails with
  | nil => rfl
  | cons trail trails ih => rw [Ways.ofList, Ways.core, ih, List.flatMap_cons]

/-- Around its alternatives a block keeps what these keep. -/
theorem Trail.cores_subset_block {frame : Frame} {start exit : StateId} (other : Bool) (trails : List Trail) :
    trails.flatMap (Trail.core false) ⊆
      (Trail.block frame start exit (Ways.ofList (trails.map (Trail.strip other))) .done).core false := by
  rw [Trail.core, Ways.core_ofList, List.flatMap_map]
  simp only [Trail.core_strip]
  exact List.subset_append_of_subset_right _ (List.subset_append_left _ _)

/-- The trail of a block with its suffix, without numbers, out of the trails of its alternatives. There is
none for a block without alternatives. -/
def Trail.ofBlock (suffix : Option Suffix) : List Trail → Option Trail
  | [] => none
  | first :: rest =>
      let decision := if rest.isEmpty then none else some 0
      let ways (other : Bool) := Ways.ofList ((first :: rest).map (Trail.strip other))
      match suffix with
      | none => if rest.isEmpty then some first else some (.block (.plain 0) 0 0 (ways true) .done)
      | some ⟨.optional, greedy⟩ => some (.block (.optional 0 greedy) 0 0 (ways true) .done)
      | some ⟨.star, greedy⟩ => some (.block (.star decision greedy 0 0 0 0) 0 0 (ways false) .done)
      | some ⟨.plus, greedy⟩ => some (.block (.plus decision greedy 0 0 0) 0 0 (ways true) .done)

/-- The checks for the blocks of a kind inside the trail. -/
def Trail.checks (kind : Frame → Bool) (index : Nat) (trail : Trail) : List Check :=
  (trail.blocks kind).map fun block => { rule := index, start := block.1.left, exit := block.1.right }

theorem Trail.checks_strip (kind : Frame → Bool) (index : Nat) (other : Bool) (trail : Trail) :
    (trail.strip other).checks kind index = trail.checks kind index := by
  have same := trail.blocks_strip kind other
  have through := congrArg (List.map fun (handle : Handle) =>
    ({ rule := index, start := handle.left, exit := handle.right } : Check)) same
  simpa [Trail.checks, List.map_map, Function.comp_def] using through

/-- The construction has grown by a trail for the piece. -/
structure Built (before after : Construction) (index : Nat) (trail : Trail) (piece : Handle) : Prop where
  grown : Grown before after (trail.layout before.network.ruleStarts before.rule none)
    (trail.checks Frame.isLoop index) (trail.checks Frame.isOptional index)
  fits : trail.Fits before.network.ruleStarts.size piece

namespace Built

variable {before middle after : Construction} {index : Nat} {trail : Trail} {piece : Handle} {id : StateId}

theorem unmoved (built : Built before middle index trail piece) (same : Grown.Unmoved middle after) :
    Built before after index trail piece :=
  ⟨built.grown.unmoved same, built.fits⟩

theorem flawed (built : Built before after index trail piece) (count : Nat) :
    Built (before.flawed count) (after.flawed count) index trail piece :=
  ⟨built.grown.flawed count, built.fits⟩

/-- Before the trail the construction has not grown by anything. -/
theorem idle (built : Built middle after index trail piece) (idle : Grown before middle [] [] []) :
    Built before after index trail piece where
  grown := by
    have later := built.grown
    rw [idle.ruleStarts, idle.rule] at later
    simpa using idle.trans later
  fits := by
    have fits := built.fits
    rwa [idle.ruleStarts] at fits

theorem lt_nextId (built : Built before after index trail piece) (member : id ∈ trail.ids) :
    id < after.network.nextId :=
  built.grown.below (by rwa [Trail.ids_layout])

theorem nextId_le (built : Built before after index trail piece) (member : id ∈ trail.ids) :
    before.network.nextId ≤ id :=
  built.grown.above id (by rwa [Trail.ids_layout])

theorem nodup (built : Built before after index trail piece) : trail.ids.Nodup := by
  have unique := built.grown.unique
  rwa [Trail.ids_layout] at unique

end Built

theorem Ways.layout_ofList (starts : Array StateId) (rule : Option Nat) (exit : StateId)
    (trails : List Trail) :
    (Ways.ofList trails).layout starts rule exit =
      trails.flatMap fun trail => trail.layout starts rule (some exit) := by
  induction trails with
  | nil => rfl
  | cons trail trails ih => simp [Ways.ofList, Ways.layout, ih]

namespace Build

variable {before current : Construction} {loops optionals : List Check} {bad : Failure → Prop}

theorem endsOtherBlock_of_state? {network : Network} {start exit : StateId} {first last : State}
    {kind : BlockKind} {other loopBack : Option StateId} (atStart : network.state? start = some first)
    (atExit : network.state? exit = some last) (opens : first.kind = .blockStart kind other loopBack)
    (closes : last.kind = .blockEnd (some start)) :
    network.endsOtherBlock exit = decide (kind ≠ .star) := by
  cases kind <;> simp [Network.endsOtherBlock, atExit, closes, Network.isStarBlockStart, atStart, opens]

/-- Stripping the tails of an alternative that leads to the end of its block. -/
theorem grown_stripTails {trail : Trail} {origin exit : StateId} (opening : Option StateId)
    (ahead : Heap) {behind : Heap}
    (grown : Grown before current
      (ahead ++ (trail.layout before.network.ruleStarts before.rule (some exit) ++ behind)) loops optionals)
    (moored : before.network.Moored before.rule)
    (callsBelow : trail.CallsBelow before.network.ruleStarts.size) (first : trail.first? = some origin)
    (atExit : (exit, { rule := before.rule, kind := .blockEnd opening }) ∈ ahead) :
    Grown before { current with network := current.network.stripTails origin }
      (ahead ++ ((trail.strip (current.network.endsOtherBlock exit)).layout before.network.ruleStarts
        before.rule (some exit) ++ behind)) loops optionals := by
  have unique := grown.unique
  simp only [Heap.ids_append, Trail.ids_layout] at unique
  have holds := grown.holds
  simp only [Network.holds_append] at holds
  have exitMember := Heap.mem_ids_of_mem atExit
  have ends : current.network.Ends before.rule trail exit :=
    { holds := by rw [grown.ruleStarts]; exact holds.2.1
      unique := by grind
      fresh := by grind
      callsBelow := by rw [grown.ruleStarts]; exact callsBelow
      atExit := ⟨opening, holds.1 _ _ atExit⟩
      moored := by rw [← grown.rule]; exact grown.moored moored }
  obtain ⟨inside, outside, others, size⟩ := ends.state?_stripTails first
  rw [grown.ruleStarts] at inside
  -- The walk changes the trail and nothing else, and the stripped trail has no ids that the trail does not have.
  have fewer := Trail.ids_strip_sublist (current.network.endsOtherBlock exit) ends.unique
  apply grown.rearrange
  · intro id absent
    simp only [Heap.ids_append, Trail.ids_layout, List.mem_append, not_or] at absent
    exact outside id absent.2.1
  · intro id present state
    simp only [List.mem_append]
    by_cases onTrail : id ∈ trail.ids
    · have notAhead : (id, state) ∉ ahead := fun member => by
        have listed := Heap.mem_ids_of_mem member
        grind
      have notBehind : (id, state) ∉ behind := fun member => by
        have listed := Heap.mem_ids_of_mem member
        grind
      simp [inside id onTrail state, notAhead, notBehind]
    · have notBefore : (id, state) ∉ trail.layout before.network.ruleStarts before.rule (some exit) :=
        fun member => onTrail (Trail.ids_layout _ _ trail (some exit) ▸ Heap.mem_ids_of_mem member)
      have notAfter : (id, state) ∉ (trail.strip (current.network.endsOtherBlock exit)).layout
          before.network.ruleStarts before.rule (some exit) := fun member =>
        onTrail (fewer.mem (Trail.ids_layout _ _ _ (some exit) ▸ Heap.mem_ids_of_mem member))
      rw [outside id onTrail, grown.new id state (grown.above id present)]
      simp [notBefore, notAfter]
  · intro id member
    simp only [Heap.ids_append, Trail.ids_layout, List.mem_append] at member ⊢
    exact member.imp_right fun later => later.imp_left fewer.mem
  · simp only [Heap.ids_append, Trail.ids_layout]
    exact ((fewer.append (List.Sublist.refl _)).append_left _).nodup unique
  · intro id number
    change Heap.Decides _ id number ↔ Heap.Decides _ id number
    simp only [Heap.decides_append, Trail.decides, Trail.decisions_strip]
  · exact others
  · exact size

/-- Puts one alternative into a block: it is led to the end of the block and stripped. -/
theorem meets_addAlternative {trail : Trail} {piece : Handle} {start exit : StateId} {opening : State}
    {kind : BlockKind} {ahead behind : Heap} (moored : before.network.Moored before.rule)
    (fits : trail.Fits before.network.ruleStarts.size piece)
    (opens : opening.kind = .blockStart kind (some exit) none)
    (grown : Grown before current
      ((start, opening) :: (exit, { rule := before.rule, kind := .blockEnd (some start) }) ::
        (ahead ++ (trail.layout before.network.ruleStarts before.rule none ++ behind))) loops optionals) :
    Meets (addAlternative start exit piece) current (fun _ after => Grown before after
      ((start, State.extend piece.left opening) ::
        (exit, { rule := before.rule, kind := .blockEnd (some start) }) ::
        (ahead ++ ((trail.strip (kind ≠ .star)).layout before.network.ruleStarts before.rule (some exit) ++
          behind))) loops optionals) bad := by
  have unique := grown.unique
  simp only [Heap.ids_cons, Heap.ids_append, Trail.ids_layout] at unique
  have rightMember : piece.right ∈ trail.ids := Trail.last?_mem fits.last
  have different : start ≠ exit := by grind
  have startRight : start ≠ piece.right := by grind
  have exitRight : exit ≠ piece.right := by grind
  have startAhead : start ∉ ahead.ids := by grind
  have startBehind : start ∉ behind.ids := by grind
  have startTrail : start ∉ trail.ids := by grind
  have rightAhead : piece.right ∉ ahead.ids := by grind
  have rightBehind : piece.right ∉ behind.ids := by grind
  have trailUnique : trail.ids.Nodup := by grind
  -- First the start of the block leads to the alternative, then the alternative to the end, and then it is stripped.
  have entered := grown.modifyState start (State.extend piece.left) (fun _ => rfl) (by simp)
  simp only [Heap.modify_cons, Heap.modify_append, ↓reduceIte, different.symm,
    Heap.modify_of_notMem startAhead, Heap.modify_of_notMem startBehind,
    Heap.modify_of_notMem (Trail.ids_layout _ _ trail none ▸ startTrail)] at entered
  have led := entered.modifyState piece.right (State.extend exit) (fun _ => rfl)
    (by simp [Heap.ids_append, Trail.ids_layout, rightMember])
  simp only [Heap.modify_cons, Heap.modify_append, startRight, exitRight, ↓reduceIte,
    Heap.modify_of_notMem rightAhead, Heap.modify_of_notMem rightBehind,
    Trail.link _ _ _ fits.opens trailUnique fits.last] at led
  have holds := led.holds
  simp only [Network.holds_cons] at holds
  obtain ⟨atStart, atExit, _⟩ := holds
  have stripped := grown_stripTails (some start) ((start, State.extend piece.left opening) ::
    (exit, { rule := before.rule, kind := .blockEnd (some start) }) :: ahead) led moored fits.callsBelow
    fits.first (by simp)
  rw [endsOtherBlock_of_state? atStart atExit opens rfl] at stripped
  simp only [addAlternative, meets_bind]
  refine (meets_epsilon (grown.isLive (by simp))).mpr ?_
  refine (meets_epsilon (entered.isLive (by simp [Heap.ids_append, Trail.ids_layout, rightMember]))).mpr ?_
  exact stripped

theorem meets_addAlternatives {trails : List Trail} {pieces : List Handle} {start exit : StateId}
    {kind : BlockKind} (moored : before.network.Moored before.rule)
    (fits : List.Forall₂ (Trail.Fits before.network.ruleStarts.size) trails pieces) :
    ∀ {current : Construction} {opening : State} {ahead : Heap},
    opening.kind = .blockStart kind (some exit) none →
    Grown before current
      ((start, opening) :: (exit, { rule := before.rule, kind := .blockEnd (some start) }) ::
        (ahead ++ Trail.spread before.network.ruleStarts before.rule trails)) loops optionals →
    Meets (pieces.forM (addAlternative start exit)) current (fun _ after => Grown before after
      ((start, { opening with
          transitions := opening.transitions ++ pieces.map fun piece => .silent piece.left }) ::
        (exit, { rule := before.rule, kind := .blockEnd (some start) }) ::
        (ahead ++ (trails.map (Trail.strip (kind ≠ .star))).flatMap fun trail =>
          trail.layout before.network.ruleStarts before.rule (some exit))) loops optionals) bad := by
  induction fits with
  | nil =>
      intro current opening ahead opens grown
      simpa using grown
  | @cons trail piece trails pieces first rest ih =>
      intro current opening ahead opens grown
      rw [Trail.spread_cons] at grown
      simp only [List.forM, meets_bind]
      refine (meets_addAlternative moored first opens grown).weaken ?_ fun _ admitted => admitted
      intro _ middle added
      rw [← List.append_assoc] at added
      have opens : (State.extend piece.left opening).kind = .blockStart kind (some exit) none := opens
      refine (ih opens added).weaken ?_ fun _ admitted => admitted
      intro _ after grown
      simpa [State.extend] using grown

theorem entries_strip {count : Nat} {trails : List Trail} {pieces : List Handle} (other : Bool)
    (exit : StateId) (fits : List.Forall₂ (Trail.Fits count) trails pieces) :
    (Ways.ofList (trails.map (Trail.strip other))).entries exit = pieces.map Handle.left := by
  induction fits with
  | nil => rfl
  | cons first _ ih => simp [Ways.ofList, Ways.entries, ih, first.first]

/-- A block without what stands around it. -/
def bareBlock (starts : Array StateId) (rule : Option Nat) (kind : BlockKind) (decision : Option Nat)
    (start exit : StateId) (ways : Ways) : Heap :=
  (start, { rule, kind := .blockStart kind (some exit) none,
            transitions := (ways.entries exit).map .silent, decision }) ::
    (exit, { rule, kind := .blockEnd (some start) }) :: ways.layout starts rule exit

theorem layout_plain (starts : Array StateId) (rule : Option Nat) (decision : Nat) (start exit : StateId)
    (ways : Ways) : (Trail.block (.plain decision) start exit ways .done).layout starts rule none =
      bareBlock starts rule .plain (some decision) start exit ways := by
  simp [Trail.layout, Frame.states, Frame.loopStates, Frame.startState, Frame.exitState, bareBlock,
    Frame.exitTargets, Frame.startTargets, Frame.blockKind, Frame.blockLoopBack, Frame.blockDecision,
    Frame.blockNonGreedy]

theorem meets_blockFrom {trails : List Trail} {pieces : List Handle} {start : StateId}
    {kind : BlockKind} {decision : Option Nat} (moored : before.network.Moored before.rule)
    (fits : List.Forall₂ (Trail.Fits before.network.ruleStarts.size) trails pieces)
    (grown : Grown before current
      (Trail.spread before.network.ruleStarts before.rule trails ++
        [(start, { rule := before.rule, kind := .blockStart kind none none, decision })]) loops optionals) :
    Meets (blockFrom start pieces) current (fun block after => block.left = start ∧
      current.network.nextId ≤ block.right ∧
        Grown before after (bareBlock before.network.ruleStarts before.rule kind decision start block.right
          (Ways.ofList (trails.map (Trail.strip (kind ≠ .star))))) loops optionals) bad := by
  have added := grown.newState (.blockEnd (some start))
  rw [List.append_assoc] at added
  have fronted := added.perm List.perm_append_comm
  simp only [List.cons_append, List.nil_append] at fronted
  have unique := fronted.unique
  simp only [Heap.ids_cons, List.nodup_cons, List.mem_cons, not_or] at unique
  have opened := fronted.modifyState start
    (fun state => { state with kind := state.kind.withExit current.network.nextId }) (fun _ => rfl) (by simp)
  simp only [Heap.modify_cons, ↓reduceIte, Ne.symm unique.1.1, Heap.modify_of_notMem unique.1.2] at opened
  simp only [blockFrom, meets_bind, meets_newState, setBlockExit, meets_pure]
  refine (meets_changeState (fronted.isLive (by simp))).mpr ?_
  rw [← List.nil_append (Trail.spread _ _ _)] at opened
  refine (meets_addAlternatives moored fits rfl opened).weaken ?_ fun _ admitted => admitted
  intro _ after grown
  refine ⟨trivial, Nat.le_refl _, ?_⟩
  simpa [bareBlock, StateKind.withExit, Ways.layout_ofList, entries_strip _ _ fits, Function.comp_def] using grown

section Frames

variable {plan : Plan} {index decision start exit : Nat} {ways : Ways} {greedy : Bool}

theorem meets_optional (current_rule : before.rule = some index)
    (grown : Grown before current
      (bareBlock before.network.ruleStarts before.rule .plain (some decision) start exit ways)
      loops optionals) :
    Meets (optional plan ⟨start, exit⟩ greedy) current (fun block after => block = ⟨start, exit⟩ ∧
      Grown before after ((Trail.block (.optional decision greedy) start exit ways .done).layout
        before.network.ruleStarts before.rule none) loops (optionals ++ [⟨index, start, exit⟩])) bad := by
  have checked := grown.addOptionalCheck ⟨index, start, exit⟩
  simp only [optional, blockCheck, setGreedy, meets_bind, meets_modify, meets_pure]
  refine (meets_currentRule (grown.rule.trans current_rule)).mpr ?_
  refine checked.meets_changeState [] fun _ marked => ?_
  refine marked.meets_changeState [] fun _ bypassed => ⟨trivial, ?_⟩
  cases greedy <;>
    simpa [Trail.layout, Frame.states, Frame.loopStates, Frame.startState, Frame.exitState,
      Frame.exitTargets, Frame.startTargets, Frame.blockKind, Frame.blockLoopBack, Frame.blockDecision,
      Frame.blockNonGreedy] using bypassed

theorem meets_warnWildcard {α : Type} {heap : Heap} (grown : Grown before current heap loops optionals)
    {body : Block} {position : Option Position} {repetition : Repetition} {rest : Build α}
    {good : α → Construction → Prop}
    (next : ∀ later, Grown before later heap loops optionals → Meets rest later good bad) :
    Meets (if greedy then (do warnWildcard plan body position repetition; rest) else rest)
      current good bad := by
  cases greedy with
  | false => exact next _ grown
  | true =>
      simp only [↓reduceIte, warnWildcard]
      cases body.hasWildcardAlternative with
      | false => exact next _ grown
      | true => exact meets_bind.mpr (grown.meets_report rfl next)

theorem meets_fork (ahead : Heap) {behind : Heap} {source inside outside : StateId} {state : State}
    (grown : Grown before current (ahead ++ (source, state) :: behind) loops optionals)
    {good : Unit → Construction → Prop}
    (next : ∀ later, Grown before later (ahead ++ (source, { state with
      transitions := state.transitions ++ (forkTargets greedy inside outside).map .silent }) :: behind)
      loops optionals → good () later) :
    Meets (fork source inside outside greedy) current good bad := by
  cases greedy <;> simp only [fork, Bool.false_eq_true, ↓reduceIte, meets_bind]
  · refine grown.meets_epsilon ahead fun _ first => first.meets_epsilon ahead fun _ second => next _ ?_
    simpa [State.extend, forkTargets] using second
  · refine grown.meets_epsilon ahead fun _ first => first.meets_epsilon ahead fun _ second => next _ ?_
    simpa [State.extend, forkTargets] using second

theorem meets_star {number : Option Nat} {body : Block} {position : Option Position}
    (current_rule : before.rule = some index)
    (grown : Grown before current
      (bareBlock before.network.ruleStarts before.rule .star number start exit ways) loops optionals) :
    Meets (star plan body position ⟨start, exit⟩ greedy) current (fun block after =>
      ∃ entry loopBack loopEnd entryDecision, block = ⟨entry, loopEnd⟩ ∧
        (∀ id ∈ [entry, loopEnd, loopBack], current.network.nextId ≤ id) ∧ Grown before after
        ((Trail.block (.star number greedy entry loopBack loopEnd entryDecision) start exit ways .done).layout
          before.network.ruleStarts before.rule none) (loops ++ [⟨index, start, exit⟩]) optionals) bad := by
  have checked := grown.addLoopCheck ⟨index, start, exit⟩
  simp only [star, blockCheck, addLoopCheck, setGreedy, setKind, meets_bind, meets_modify, meets_pure,
    meets_discard]
  refine (meets_currentRule (grown.rule.trans current_rule)).mpr ?_
  refine checked.meets_newState fun entry _ fresh made => ?_
  refine made.meets_changeState _ fun _ marked => ?_
  refine marked.meets_defineDecision _ fun entryDecision _ decided => ?_
  refine decided.meets_newState fun loopEnd _ afterEntry left => ?_
  refine left.meets_newState fun loopBack _ afterEnd back => ?_
  have newEnd : current.network.nextId ≤ loopEnd := decided.beyond (by simp) fresh afterEntry
  have newBack : current.network.nextId ≤ loopBack := left.beyond (by simp) newEnd afterEnd
  -- the three new states stand between the block and its alternatives
  simp only [bareBlock, List.append_assoc, List.cons_append, List.nil_append] at back
  have placed := back.perm ((List.perm_append_comm.cons _).cons _)
  simp only [List.cons_append, List.nil_append] at placed
  refine placed.meets_changeState [_, _] fun _ paired => ?_
  refine paired.meets_changeState [_, _, _] fun _ closed => ?_
  refine meets_warnWildcard closed fun _ warned => ?_
  simp only [meets_bind, meets_pure]
  refine meets_fork [_, _] warned fun _ forked => ?_
  refine forked.meets_epsilon [_] fun _ ended => ?_
  refine ended.meets_epsilon [_, _, _, _] fun _ looped => ?_
  refine ⟨entry, loopBack, loopEnd, entryDecision, rfl, by simpa using ⟨fresh, newEnd, newBack⟩, ?_⟩
  simpa [Trail.layout, Frame.states, Frame.loopStates, Frame.startState, Frame.exitState,
    Frame.exitTargets, Frame.startTargets, Frame.blockKind, Frame.blockLoopBack, Frame.blockDecision,
    Frame.blockNonGreedy, State.extend] using looped

theorem meets_plus {number : Option Nat} {body : Block} {position : Option Position}
    (current_rule : before.rule = some index)
    (grown : Grown before current
      (bareBlock before.network.ruleStarts before.rule .plus number start exit ways) loops optionals) :
    Meets (plus plan body position ⟨start, exit⟩ greedy) current (fun result after =>
      ∃ loopBack loopEnd loopDecision, result = (⟨start, loopEnd⟩, loopBack) ∧
        (∀ id ∈ [loopBack, loopEnd], current.network.nextId ≤ id) ∧ Grown before after
        ((Trail.block (.plus number greedy loopBack loopEnd loopDecision) start exit ways .done).layout
          before.network.ruleStarts before.rule none) (loops ++ [⟨index, start, exit⟩]) optionals) bad := by
  have checked := grown.addLoopCheck ⟨index, start, exit⟩
  simp only [plus, blockCheck, addLoopCheck, setGreedy, setBlockLoopBack, meets_bind, meets_modify,
    meets_pure, meets_discard]
  refine (meets_currentRule (grown.rule.trans current_rule)).mpr ?_
  refine checked.meets_newState fun loopBack _ fresh made => ?_
  refine made.meets_changeState _ fun _ marked => ?_
  refine marked.meets_defineDecision _ fun loopDecision _ decided => ?_
  refine decided.meets_newState fun loopEnd _ afterBack left => ?_
  have newEnd : current.network.nextId ≤ loopEnd := decided.beyond (by simp) fresh afterBack
  simp only [bareBlock, List.append_assoc, List.cons_append, List.nil_append] at left
  have placed := left.perm ((List.perm_append_comm.cons _).cons _)
  simp only [List.cons_append, List.nil_append] at placed
  refine placed.meets_changeState [] fun _ paired => ?_
  refine paired.meets_epsilon [_] fun _ ended => ?_
  refine meets_warnWildcard ended fun _ warned => ?_
  simp only [meets_bind, meets_pure]
  refine meets_fork [_, _] warned fun _ forked => ?_
  refine ⟨loopBack, loopEnd, loopDecision, rfl, by simpa using ⟨fresh, newEnd⟩, ?_⟩
  simpa [StateKind.withLoopBack, Trail.layout, Frame.states, Frame.loopStates, Frame.startState, Frame.exitState,
    Frame.exitTargets, Frame.startTargets, Frame.blockKind, Frame.blockLoopBack, Frame.blockDecision,
    Frame.blockNonGreedy, State.extend] using forked

theorem meets_decideIf {α : Type} {several : Bool} {heap : Heap} {state : State}
    (grown : Grown before current (heap ++ [(start, state)]) loops optionals)
    (undecided : state.decision = none) {rest : Build α} {good : α → Construction → Prop}
    (next : ∀ number later, (number.map fun _ => 0) = (if several then some 0 else none) →
      Grown before later (heap ++ [(start, { state with decision := number })]) loops optionals →
      Meets rest later good bad) :
    Meets (if several then (do discard (defineDecision start); rest) else rest) current good bad := by
  cases several with
  | false =>
      refine next none _ rfl ?_
      rw [← undecided]
      exact grown
  | true =>
      simp only [↓reduceIte, meets_bind, meets_discard]
      exact grown.meets_defineDecision _ (fun number later decided => next (some number) later rfl decided)
        undecided

end Frames

theorem callsBelow_of_fits {count : Nat} {trails : List Trail} {pieces : List Handle}
    (fits : List.Forall₂ (Trail.Fits count) trails pieces) {trail : Trail} (member : trail ∈ trails) :
    trail.CallsBelow count := by
  induction fits with
  | nil => simp at member
  | cons first _ ih =>
      rcases List.mem_cons.mp member with rfl | later
      · exact first.callsBelow
      · exact ih later

/-- The trail of a block: it is entered, left and checked where its frame says. -/
theorem built_block {after : Construction} {index : Nat} {frame : Frame} {start exit : StateId}
    {trails : List Trail} {pieces : List Handle} {other : Bool}
    (fits : List.Forall₂ (Trail.Fits before.network.ruleStarts.size) trails pieces)
    (grown : Grown before after
      ((Trail.block frame start exit (Ways.ofList (trails.map (Trail.strip other))) .done).layout
        before.network.ruleStarts before.rule none)
      (trails.flatMap (Trail.checks Frame.isLoop index) ++
        if frame.isLoop then [⟨index, start, exit⟩] else [])
      (trails.flatMap (Trail.checks Frame.isOptional index) ++
        if frame.isOptional then [⟨index, start, exit⟩] else [])) :
    Built before after index
      (.block frame start exit (Ways.ofList (trails.map (Trail.strip other))) .done)
      ⟨frame.entry start, frame.outlet exit⟩ where
  grown := by
    have checks : ∀ kind : Frame → Bool,
        (Trail.block frame start exit (Ways.ofList (trails.map (Trail.strip other))) .done).checks kind index =
          trails.flatMap (Trail.checks kind index) ++
            if kind frame then [⟨index, start, exit⟩] else [] := by
      intro kind
      have stripped : (trails.map (Trail.strip other)).flatMap (Trail.checks kind index) =
          trails.flatMap (Trail.checks kind index) := by
        rw [List.flatMap_map]
        simp only [Trail.checks_strip]
      rw [← stripped]
      unfold Trail.checks
      cases wanted : kind frame <;> simp [Trail.blocks, Ways.blocks_ofList, wanted, List.map_flatMap]
    rw [checks, checks]
    exact grown
  fits :=
    { first := rfl
      last := rfl
      opens := Or.inl rfl
      callsBelow := by
        intro label member
        simp only [Trail.labels, List.append_nil, Ways.mem_labels_ofList, List.mem_map] at member
        obtain ⟨_, ⟨trail, inside, rfl⟩, member⟩ := member
        exact callsBelow_of_fits fits inside label (trail.labels_strip other member) }

/-- The construction has grown by a block with these alternatives and a frame like this one, all of whose states are
new, and one of them stands for it. -/
def BuiltBlock (before current after : Construction) (index : Nat) (trails : List Trail) (other : Bool)
    (shape : Frame) (result : Handle × StateId) : Prop :=
  ∃ frame start exit, frame.erase = shape ∧ result.2 ∈ start :: exit :: frame.loopIds ∧
    (∀ id ∈ start :: exit :: frame.loopIds, current.network.nextId ≤ id) ∧ Built before after index
    (.block frame start exit (Ways.ofList (trails.map (Trail.strip other))) .done) result.1

theorem builtBlock {after : Construction} {index : Nat} (frame : Frame) (start exit : StateId)
    {trails : List Trail} {pieces : List Handle} {other : Bool} {piece : Handle} {mark : StateId}
    (fits : List.Forall₂ (Trail.Fits before.network.ruleStarts.size) trails pieces)
    (grown : Grown before after
      ((Trail.block frame start exit (Ways.ofList (trails.map (Trail.strip other))) .done).layout
        before.network.ruleStarts before.rule none)
      (trails.flatMap (Trail.checks Frame.isLoop index) ++
        if frame.isLoop then [⟨index, start, exit⟩] else [])
      (trails.flatMap (Trail.checks Frame.isOptional index) ++
        if frame.isOptional then [⟨index, start, exit⟩] else []))
    (ends : piece = ⟨frame.entry start, frame.outlet exit⟩) {shape : Frame} (erased : frame.erase = shape)
    (own : mark ∈ start :: exit :: frame.loopIds)
    (fresh : ∀ id ∈ start :: exit :: frame.loopIds, current.network.nextId ≤ id) :
    BuiltBlock before current after index trails other shape (piece, mark) :=
  ⟨frame, start, exit, erased, own, fresh, ends ▸ built_block fits grown⟩

/-- The construction has grown by a trail around these trails. It is the block that the suffix asks for but for the
states around it, also when some older states are marked, and begins with the state that stands for it. -/
structure Encloses (before current after : Construction) (index : Nat) (suffix : Option Suffix) (trails : List Trail)
    (assemblies : List Assembly) (trail : Trail) (result : Handle × StateId) : Prop where
  built : Built before after index trail result.1
  painted : ∀ marked : StateId → Bool, (∀ id, current.network.nextId ≤ id → marked id = false) →
    Trail.ofBlock suffix (trails.map (Trail.paint marked)) = some (trail.paint marked)
  around : Trail.ofBlock suffix trails = some trail ∨ ∃ frame start exit ways,
    trail = .block frame start exit ways .done ∧ Trail.ofBlock suffix trails = some (.block frame.erase 0 0 ways .done)
  framed : Framed trail.joints assemblies
  cores : trails.flatMap (Trail.core false) ⊆ trail.core false
  opening : result.2 ∈ trail.opening

theorem Encloses.shape {after : Construction} {index : Nat} {suffix : Option Suffix} {trails : List Trail}
    {assemblies : List Assembly} {trail : Trail} {result : Handle × StateId}
    (encloses : Encloses before current after index suffix trails assemblies trail result) :
    Trail.ofBlock suffix (trails.map Trail.erase) = some trail.erase := by
  have plain := encloses.painted (fun _ => false) fun _ _ => rfl
  rwa [Trail.paint_none, funext Trail.paint_none] at plain

theorem BuiltBlock.encloses {after : Construction} {index : Nat} {trails : List Trail} {other : Bool} {shape : Frame}
    {result : Handle × StateId} (built : BuiltBlock before current after index trails other shape result)
    {pieces : List Handle}
    (fits : List.Forall₂ (Trail.Fits before.network.ruleStarts.size) trails pieces) {body : Block}
    (count : pieces.length = body.alternatives.length) (nonempty : trails ≠ []) (branches : body.branches = true)
    {suffix : Option Suffix} (known : body.suffix = suffix)
    (around : shape = Frame.around suffix (decide (2 ≤ body.alternatives.length)))
    (drawn : ∀ paint : Trail → Trail, Trail.ofBlock suffix (trails.map paint) =
      some (.block shape 0 0 (Ways.ofList ((trails.map paint).map (Trail.strip other))) .done))
    {assemblies : List Assembly} (framed : Framed (trails.flatMap Trail.joints) assemblies) :
    ∃ trail, Encloses before current after index suffix trails (assemblies ++ [⟨body, pieces⟩]) trail result := by
  obtain ⟨frame, start, exit, erased, own, fresh, built⟩ := built
  subst known
  have joints : (Trail.block frame start exit (Ways.ofList (trails.map (Trail.strip other))) .done).joints =
      trails.flatMap Trail.joints ++
        [⟨frame, start, exit, (Ways.ofList (trails.map (Trail.strip other))).entries exit⟩] := by
    rw [Trail.joints, Ways.joints_ofList, List.flatMap_map]
    simp only [Trail.joints_strip]
    rfl
  have bare := drawn id
  rw [List.map_id, ← erased] at bare
  refine ⟨_, built, fun marked none => ?_, .inr ⟨frame, start, exit, _, rfl, bare⟩, ?_,
    Trail.cores_subset_block other trails, own⟩
  · have unmarked : (start :: exit :: frame.loopIds).any marked = false :=
      List.any_eq_false.mpr fun id listed => by simp [none id (fresh id listed)]
    rw [drawn]
    simp [Trail.paint, erased, unmarked, Ways.paint_ofList, Trail.paint_strip, Function.comp_def]
  · rw [joints]
    refine framed.append ?_
    have kept : Assembly.branching [⟨body, pieces⟩] = [⟨body, pieces⟩] := by simp [Assembly.branching, branches]
    rw [Framed, kept]
    refine .cons ⟨erased.trans around, entries_strip other exit fits, count, ?_⟩ .nil
    rintro none
    rw [none, List.length_nil, ← fits.length_eq, List.length_eq_zero_iff] at count
    exact nonempty count

section Suffixes

variable {plan : Plan} {index : Nat} {body : Block} {position : Option Position} {greedy : Bool}
  {trails : List Trail} {pieces : List Handle}

theorem meets_plainBlock (moored : before.network.Moored before.rule)
    (fits : List.Forall₂ (Trail.Fits before.network.ruleStarts.size) trails pieces)
    (grown : Grown before current (Trail.spread before.network.ruleStarts before.rule trails)
      (trails.flatMap (Trail.checks Frame.isLoop index))
      (trails.flatMap (Trail.checks Frame.isOptional index))) :
    Meets (do
        let start ← newBlockStart .plain
        discard (defineDecision start)
        let handle ← blockFrom start pieces
        return (handle, start))
      current (fun result after => BuiltBlock before current after index trails true (.plain 0) result) bad := by
  simp only [newBlockStart, meets_bind, meets_discard, meets_pure]
  refine grown.meets_newState fun start _ fresh made => ?_
  refine made.meets_defineDecision _ fun decision _ decided => ?_
  refine (meets_blockFrom moored fits decided).weaken ?_ fun _ admitted => admitted
  rintro ⟨left, exit⟩ after ⟨rfl, later, bare⟩
  have newExit : current.network.nextId ≤ exit := decided.beyond (by simp) fresh later
  refine builtBlock (.plain decision) left exit fits ?_ rfl rfl List.mem_cons_self
    (by simpa [Frame.loopIds] using ⟨fresh, newExit⟩)
  simpa [layout_plain, Frame.isLoop, Frame.isOptional] using bare

theorem meets_optionalBlock (current_rule : before.rule = some index)
    (moored : before.network.Moored before.rule)
    (fits : List.Forall₂ (Trail.Fits before.network.ruleStarts.size) trails pieces)
    (grown : Grown before current (Trail.spread before.network.ruleStarts before.rule trails)
      (trails.flatMap (Trail.checks Frame.isLoop index))
      (trails.flatMap (Trail.checks Frame.isOptional index))) :
    Meets (do
        let start ← newBlockStart .plain
        discard (defineDecision start)
        let handle ← optional plan (← blockFrom start pieces) greedy
        return (handle, handle.left))
      current (fun result after => BuiltBlock before current after index trails true (.optional 0 greedy) result)
      bad := by
  simp only [newBlockStart, meets_bind, meets_discard, meets_pure]
  refine grown.meets_newState fun start _ fresh made => ?_
  refine made.meets_defineDecision _ fun decision _ decided => ?_
  refine (meets_blockFrom moored fits decided).weaken ?_ fun _ admitted => admitted
  rintro ⟨left, exit⟩ _ ⟨rfl, later, bare⟩
  have newExit : current.network.nextId ≤ exit := decided.beyond (by simp) fresh later
  refine (meets_optional current_rule bare).weaken ?_ fun _ admitted => admitted
  rintro _ after ⟨rfl, skipped⟩
  refine builtBlock (.optional decision greedy) left exit fits ?_ rfl rfl List.mem_cons_self
    (by simpa [Frame.loopIds] using ⟨fresh, newExit⟩)
  simpa [Frame.isLoop, Frame.isOptional] using skipped

theorem meets_starBlock (current_rule : before.rule = some index)
    (moored : before.network.Moored before.rule)
    (fits : List.Forall₂ (Trail.Fits before.network.ruleStarts.size) trails pieces)
    (grown : Grown before current (Trail.spread before.network.ruleStarts before.rule trails)
      (trails.flatMap (Trail.checks Frame.isLoop index))
      (trails.flatMap (Trail.checks Frame.isOptional index))) (several : Bool) :
    Meets (do
        let start ← newBlockStart .star
        if several then discard (defineDecision start)
        let handle ← star plan body position (← blockFrom start pieces) greedy
        return (handle, handle.left))
      current (fun result after => BuiltBlock before current after index trails false
        (.star (if several then some 0 else none) greedy 0 0 0 0) result) bad := by
  simp only [newBlockStart, meets_bind]
  refine grown.meets_newState fun start _ fresh made => ?_
  refine meets_decideIf made rfl fun number _ erased decided => ?_
  simp only [meets_bind, meets_pure]
  refine (meets_blockFrom moored fits decided).weaken ?_ fun _ admitted => admitted
  rintro ⟨left, exit⟩ _ ⟨rfl, later, bare⟩
  have newExit : current.network.nextId ≤ exit := decided.beyond (by simp) fresh later
  refine (meets_star current_rule bare).weaken ?_ fun _ admitted => admitted
  rintro _ after ⟨entry, loopBack, loopEnd, entryDecision, rfl, latest, looped⟩
  have newLoop : ∀ id ∈ [entry, loopEnd, loopBack], current.network.nextId ≤ id := fun id listed =>
    bare.beyond (by simp [bareBlock]) newExit (latest id listed)
  refine builtBlock (.star number greedy entry loopBack loopEnd entryDecision) left exit fits ?_ rfl
    (by simp [Frame.erase, erased]) (by simp [Frame.loopIds])
    (List.forall_mem_cons.mpr ⟨fresh, List.forall_mem_cons.mpr ⟨newExit, newLoop⟩⟩)
  simpa [Frame.isLoop, Frame.isOptional] using looped

theorem meets_plusBlock (current_rule : before.rule = some index)
    (moored : before.network.Moored before.rule)
    (fits : List.Forall₂ (Trail.Fits before.network.ruleStarts.size) trails pieces)
    (grown : Grown before current (Trail.spread before.network.ruleStarts before.rule trails)
      (trails.flatMap (Trail.checks Frame.isLoop index))
      (trails.flatMap (Trail.checks Frame.isOptional index))) (several : Bool) :
    Meets (do
        let start ← newBlockStart .plus
        if several then discard (defineDecision start)
        plus plan body position (← blockFrom start pieces) greedy)
      current (fun result after => BuiltBlock before current after index trails true
        (.plus (if several then some 0 else none) greedy 0 0 0) result) bad := by
  simp only [newBlockStart, meets_bind]
  refine grown.meets_newState fun start _ fresh made => ?_
  refine meets_decideIf made rfl fun number _ erased decided => ?_
  simp only [meets_bind]
  refine (meets_blockFrom moored fits decided).weaken ?_ fun _ admitted => admitted
  rintro ⟨left, exit⟩ _ ⟨rfl, later, bare⟩
  have newExit : current.network.nextId ≤ exit := decided.beyond (by simp) fresh later
  refine (meets_plus current_rule bare).weaken ?_ fun _ admitted => admitted
  rintro _ after ⟨loopBack, loopEnd, loopDecision, rfl, latest, looped⟩
  have newLoop : ∀ id ∈ [loopBack, loopEnd], current.network.nextId ≤ id := fun id listed =>
    bare.beyond (by simp [bareBlock]) newExit (latest id listed)
  refine builtBlock (.plus number greedy loopBack loopEnd loopDecision) left exit fits ?_ rfl
    (by simp [Frame.erase, erased]) (by simp [Frame.loopIds])
    (List.forall_mem_cons.mpr ⟨fresh, List.forall_mem_cons.mpr ⟨newExit, newLoop⟩⟩)
  simpa [Frame.isLoop, Frame.isOptional] using looped

/-- A block of alternatives has the trail that its suffix says. -/
theorem meets_block (current_rule : before.rule = some index)
    (moored : before.network.Moored before.rule)
    (fits : List.Forall₂ (Trail.Fits before.network.ruleStarts.size) trails pieces)
    (grown : Grown before current (Trail.spread before.network.ruleStarts before.rule trails)
      (trails.flatMap (Trail.checks Frame.isLoop index))
      (trails.flatMap (Trail.checks Frame.isOptional index)))
    (count : pieces.length = body.alternatives.length) {assemblies : List Assembly}
    (framed : Framed (trails.flatMap Trail.joints) assemblies) :
    Meets (block plan body position pieces) current (fun result after => ∃ trail,
      Encloses before current after index body.suffix trails (assemblies ++ [⟨body, pieces⟩]) trail result)
      (fun failure => trails = [] ∧ failure = .inconsistent .emptyBlock) := by
  cases fits with
  | nil => exact meets_fail.mpr ⟨rfl, rfl⟩
  | @cons trail piece trails pieces first rest =>
      -- Both sides ask whether there is a second alternative, one of the pieces and the other of the trails.
      have same : ∀ paint : Trail → Trail, pieces.isEmpty = (trails.map paint).isEmpty := by
        cases rest <;> exact fun _ => rfl
      have several : (!pieces.isEmpty) = decide (2 ≤ body.alternatives.length) := by
        rw [← count]
        cases pieces <;> simp
      have all := List.Forall₂.cons first rest
      simp only [block]
      cases known : body.suffix with
      | none =>
          cases rest with
          | nil =>
              refine ⟨trail, ⟨?_, first⟩, fun _ _ => rfl, .inl rfl, ?_, by simp, Trail.opening_of_first? first.first⟩
              · simpa using grown
              · have plain : body.branches = false := by simp [Block.branches, known, ← count]
                simpa [Framed, Assembly.branching, plain] using framed
          | cons second later =>
              have wide : body.branches = true := by simp [Block.branches, ← count]
              refine (meets_plainBlock moored all grown).weaken (fun result after built => ?_) fun _ admitted => admitted
              exact built.encloses all count (by simp) wide known rfl (fun _ => rfl) framed
      | some suffix =>
          have wide : body.branches = true := by simp [Block.branches, known]
          obtain ⟨repetition, greedy⟩ := suffix
          cases repetition with
          | optional =>
              refine (meets_optionalBlock current_rule moored all grown).weaken (fun result after built => ?_)
                fun _ admitted => admitted
              exact built.encloses all count (by simp) wide known rfl (fun _ => rfl) framed
          | star =>
              refine (meets_starBlock current_rule moored all grown _).weaken (fun result after built => ?_)
                fun _ admitted => admitted
              refine built.encloses all count (by simp) wide known ?_ (fun paint => ?_) framed
              · rw [several]
                rfl
              · rw [List.map_cons, Trail.ofBlock, ← same]
                cases pieces <;> rfl
          | plus =>
              refine (meets_plusBlock current_rule moored all grown _).weaken (fun result after built => ?_)
                fun _ admitted => admitted
              refine built.encloses all count (by simp) wide known ?_ (fun paint => ?_) framed
              · rw [several]
                rfl
              · rw [List.map_cons, Trail.ofBlock, ← same]
                cases pieces <;> rfl

end Suffixes

end Build

end GrammarNetwork
