import GrammarNetwork.Proofs.Networks

/-! Decisions: the states with several ways out are numbered, and no others but the entries of modes. -/

namespace GrammarNetwork

/-- What stands around the alternatives of a block is settled by its suffix and by whether there are several. -/
theorem Frame.around_cases {frame : Frame} {suffix : Option Suffix} {several : Bool}
    (shape : frame.erase = Frame.around suffix several) :
    (suffix = none ∧ ∃ decision, frame = .plain decision) ∨
    (∃ greedy decision, suffix = some ⟨.optional, greedy⟩ ∧ frame = .optional decision greedy) ∨
    (∃ greedy decision entry loopBack loopEnd number, suffix = some ⟨.star, greedy⟩ ∧
      frame = .star decision greedy entry loopBack loopEnd number ∧ decision.isSome = several) ∨
    (∃ greedy decision loopBack loopEnd number, suffix = some ⟨.plus, greedy⟩ ∧
      frame = .plus decision greedy loopBack loopEnd number ∧ decision.isSome = several) := by
  have marked : ∀ decision : Option Nat, (decision.map fun _ => 0) = (if several then some 0 else none) →
      decision.isSome = several := by
    intro decision same
    cases decision <;> cases several <;> simp_all
  rcases suffix with _ | ⟨_ | _ | _, greedy⟩
  · cases frame with
    | plain decision => exact Or.inl ⟨rfl, decision, rfl⟩
    | _ => cases shape
  · cases frame with
    | optional decision =>
        cases shape
        exact Or.inr (Or.inl ⟨_, decision, rfl, rfl⟩)
    | _ => cases shape
  · cases frame with
    | star decision greedy' entry loopBack loopEnd number =>
        simp only [Frame.erase, Frame.around, Frame.star.injEq, and_true] at shape
        obtain ⟨same, rfl⟩ := shape
        exact Or.inr (Or.inr (Or.inl ⟨_, _, _, _, _, _, rfl, rfl, marked decision same⟩))
    | _ => cases shape
  · cases frame with
    | plus decision greedy' loopBack loopEnd number =>
        simp only [Frame.erase, Frame.around, Frame.plus.injEq, and_true] at shape
        obtain ⟨same, rfl⟩ := shape
        exact Or.inr (Or.inr (Or.inr ⟨_, _, _, _, _, rfl, rfl, marked decision same⟩))
    | _ => cases shape

section Pairs

variable {joints : List Joint} {assemblies : List Assembly} {joint : Joint}

theorem Framed.pair (framed : Framed joints assemblies) (listed : joint ∈ joints) :
    ∃ assembly, (joint, assembly) ∈ joints.zip (Assembly.branching assemblies) := by
  obtain ⟨index, bound, rfl⟩ := List.getElem_of_mem listed
  have within : index < (Assembly.branching assemblies).length := framed.length_eq ▸ bound
  refine ⟨(Assembly.branching assemblies)[index], List.mem_iff_getElem.mpr ⟨index, ?_, List.getElem_zip⟩⟩
  rw [List.length_zip]
  exact Nat.lt_min.mpr ⟨bound, within⟩

theorem Framed.frames (framed : Framed joints assemblies) {assembly : Assembly}
    (paired : (joint, assembly) ∈ joints.zip (Assembly.branching assemblies)) :
    assembly.body.branches = true ∧ joint.Frames assembly :=
  ⟨(List.mem_filter.mp (List.of_mem_zip paired).2).2, (List.forall₂_iff_zip.mp framed).2 paired⟩

end Pairs

section Widths

variable {joint : Joint} {assembly : Assembly}

theorem Joint.Frames.length_entries (frames : joint.Frames assembly) :
    joint.entries.length = assembly.body.alternatives.length := by
  rw [frames.entries, List.length_map, frames.count]

/-- The start of a block is a decision when there are several ways into it. -/
theorem Joint.Frames.decides_start (frames : joint.Frames assembly) (branches : assembly.body.branches = true) :
    joint.frame.blockDecision.isSome = true ↔ 2 ≤ (joint.frame.startTargets joint.exit joint.entries).length := by
  have width := frames.length_entries
  have positive := List.length_pos_iff.mpr frames.nonempty
  rcases Frame.around_cases frames.frame with ⟨plain, _, same⟩ | ⟨greedy, _, _, same⟩ |
    ⟨greedy, _, _, _, _, _, _, same, several⟩ | ⟨greedy, _, _, _, _, _, same, several⟩
  · simp only [Block.branches, plain, Option.isSome_none, Bool.false_or, decide_eq_true_eq] at branches
    simp [same, Frame.blockDecision, Frame.startTargets]
    omega
  · cases greedy <;> simp [same, Frame.blockDecision, Frame.startTargets] <;> omega
  · simp [same, Frame.blockDecision, Frame.startTargets, several, width]
  · simp [same, Frame.blockDecision, Frame.startTargets, several, width]

/-- A state of a joint is a decision when there are several ways out of it. -/
theorem Joint.Frames.decides (frames : joint.Frames assembly) (branches : assembly.body.branches = true)
    {rule : Option Nat} {next : Option StateId} {entry : StateId × State} (member : entry ∈ joint.states rule next) :
    entry.2.kind ≠ .tokensStart ∧ (entry.2.decision.isSome = true ↔ 2 ≤ entry.2.transitions.length) := by
  have start := frames.decides_start branches
  obtain ⟨frame, first, exit, entries⟩ := joint
  simp only [Joint.states, Frame.states, List.mem_cons] at member
  rcases member with rfl | rfl | inLoop
  · exact ⟨by simp [Frame.startState], by simpa [Frame.startState] using start⟩
  · refine ⟨by simp [Frame.exitState], ?_⟩
    have single : next.toList.length < 2 := by cases next <;> simp
    cases frame <;> simp [Frame.exitState, Frame.exitTargets, single]
  · cases frame with
    | plain decision => cases inLoop
    | optional decision greedy => cases inLoop
    | star decision greedy head loopBack loopEnd number =>
        simp only [Frame.loopStates, List.mem_cons, List.not_mem_nil, or_false] at inLoop
        rcases inLoop with rfl | rfl | rfl
        · cases greedy <;> simp [forkTargets]
        · cases next <;> simp
        · simp
    | plus decision greedy loopBack loopEnd number =>
        simp only [Frame.loopStates, List.mem_cons, List.not_mem_nil, or_false] at inLoop
        rcases inLoop with rfl | rfl
        · cases greedy <;> simp [forkTargets]
        · cases next <;> simp

end Widths

/-- The decisions of a network are numbered: each number belongs to one state, and each state that has one is
found under it. -/
structure Network.Decided (network : Network) : Prop where
  unique : network.decisions.toList.Nodup
  numbered : ∀ number id, network.decisions[number]? = some id ↔
    ∃ state, network.state? id = some state ∧ state.decision = some number
  modes : ∀ id state, network.state? id = some state → state.kind = .tokensStart → state.decision.isSome = true
  others : ∀ id state, network.state? id = some state → state.kind ≠ .tokensStart → state.kind ≠ .ruleStop →
    (state.decision.isSome = true ↔ 2 ≤ state.transitions.length)

theorem Stands.decided {network : Network} {heap : Heap} (stands : Stands network heap) (number : Nat)
    (id : StateId) : network.decisions[number]? = some id ↔
      ∃ state, network.state? id = some state ∧ state.decision = some number := by
  rw [stands.decides number id]
  simp only [Heap.Decides, stands.exact]

theorem Stands.nodup_decisions {network : Network} {heap : Heap} (stands : Stands network heap) :
    network.decisions.toList.Nodup := by
  refine List.pairwise_iff_getElem.mpr fun first second bound within less same => ?_
  have found : network.decisions[second]? = some network.decisions.toList[second] := by
    rw [← Array.getElem?_toList, List.getElem?_eq_getElem within]
  have again : network.decisions[first]? = some network.decisions.toList[second] := by
    rw [← Array.getElem?_toList, List.getElem?_eq_getElem bound, same]
  obtain ⟨state, here, decision⟩ := (stands.decided _ _).mp found
  obtain ⟨other, there, earlier⟩ := (stands.decided _ _).mp again
  rw [here] at there
  cases there
  rw [decision] at earlier
  cases earlier
  exact Nat.lt_irrefl _ less

/-- The state belongs to a block or a loop. -/
def StateKind.isOfBlock : StateKind → Bool
  | .blockStart _ _ _ | .blockEnd _ | .starLoopEntry _ | .loopEnd _ | .starLoopBack | .plusLoopBack => true
  | .basic | .ruleStart _ _ | .ruleStop | .tokensStart => false

namespace Build.Completion

variable {plan : Plan} {journal : Journal} {network : Network} {after : Construction} {others : Heap}
  {parts : List RulePart}

/-- A state outside of the joints is the entry of a mode, the end of a rule or one with at most one way out. -/
theorem state_cases (completion : Completion plan journal network after others parts) {id : StateId} {state : State}
    (found : network.state? id = some state) :
    (state.nonGreedy = false ∧ state.kind.isOfBlock = false ∧
      (state.kind = .tokensStart ∧ state.decision.isSome = true ∨ state.kind = .ruleStop ∨
        state.kind ≠ .tokensStart ∧ state.decision = none ∧ state.transitions.length ≤ 1)) ∨
      ∃ joint ∈ RulePart.joints parts, ∃ rule next, (id, state) ∈ joint.states rule next := by
  rcases completion.makes.houses.mem_of_state? found with outside | ⟨index, part, known, inside⟩
  · refine Or.inl ?_
    cases kind : plan.kind with
    | parser =>
        have linked := completion.linked
        unfold Linked at linked
        rw [kind] at linked
        obtain ⟨sink, rfl, _⟩ := linked
        cases List.mem_singleton.mp outside
        exact ⟨rfl, rfl, Or.inr (Or.inr ⟨by simp, rfl, Nat.zero_le _⟩)⟩
    | lexer =>
        rw [(completion.dispatched kind).entries] at outside
        obtain ⟨_, _, _, _, rfl⟩ := mem_modeEntries.mp outside
        exact ⟨rfl, rfl, Or.inl ⟨rfl, rfl⟩⟩
  · simp only [RulePart.heap, List.mem_cons, Prod.mk.injEq] at inside
    rcases inside with ⟨_, rfl⟩ | ⟨_, rfl⟩ | within
    · refine Or.inl ⟨rfl, rfl, Or.inr (Or.inr ⟨by simp, rfl, ?_⟩)⟩
      cases part.body.first? <;> simp
    · exact Or.inl ⟨rfl, rfl, Or.inr (Or.inl rfl)⟩
    · rcases part.body.mem_layout within with ⟨transitions, rfl, narrow⟩ | ⟨joint, listed, next, member⟩
      · exact Or.inl ⟨rfl, rfl, Or.inr (Or.inr ⟨by simp, rfl, narrow⟩)⟩
      · exact Or.inr ⟨joint, List.mem_flatMap.mpr ⟨part, List.mem_of_getElem? known, listed⟩, _, next, member⟩

/-- The entry of a mode is a decision. Any other state before the end of a rule is one when it has several ways out. -/
theorem widths (completion : Completion plan journal network after others parts) {id : StateId} {state : State}
    (found : network.state? id = some state) :
    (state.kind = .tokensStart ∧ state.decision.isSome = true) ∨ state.kind = .ruleStop ∨
      state.kind ≠ .tokensStart ∧ (state.decision.isSome = true ↔ 2 ≤ state.transitions.length) := by
  rcases completion.state_cases found with ⟨_, _, entry | stop | ⟨inner, undecided, narrow⟩⟩ |
    ⟨joint, listed, rule, next, member⟩
  · exact Or.inl entry
  · exact Or.inr (Or.inl stop)
  · refine Or.inr (Or.inr ⟨inner, ?_⟩)
    rw [undecided]
    simp
    omega
  · obtain ⟨assembly, paired⟩ := completion.framed.pair listed
    obtain ⟨branches, frames⟩ := completion.framed.frames paired
    exact Or.inr (Or.inr (frames.decides branches member))

end Build.Completion

/-- The decisions of every network that is built are numbered, and besides the entries of modes they are the states
with several ways out that do not end a rule. -/
theorem Plan.run_decisions (plan : Plan) (journal : Journal) :
    match plan.run journal with
    | .ok network _ => network.Decided
    | .error _ _ => True := by
  split
  · rename_i network after ends
    obtain ⟨others, parts, completion⟩ := completes_of_run ends
    have stands := completion.makes.houses.stands
    refine ⟨stands.nodup_decisions, stands.decided, fun id state found entry => ?_, fun id state found inner before => ?_⟩
    · rcases completion.widths found with ⟨_, decides⟩ | stop | ⟨inner, _⟩
      · exact decides
      · rw [entry] at stop
        cases stop
      · exact absurd entry inner
    · rcases completion.widths found with ⟨entry, _⟩ | stop | ⟨_, decides⟩
      · exact absurd entry inner
      · exact absurd stop before
      · exact decides
  · trivial

end GrammarNetwork
