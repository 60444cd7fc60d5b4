import GrammarNetwork.Proofs.Priorities
import GrammarNetwork.Proofs.Repeats

/-! Layouts: the blocks with a suffix that stand in a rule of a network are those of the trail of its body. -/

namespace GrammarNetwork

/-- All the blocks with such a suffix that stand in the rule with number `index`, each once. -/
structure Network.LaidOut (network : Network) (index : Nat) (which : Repetition → Bool)
    (found : List (Handle × Ways)) : Prop where
  lays : ∀ block ∈ found, ∃ frame, frame.repeats which = true ∧ network.Lays index frame block
  once : (found.map fun block => block.1.left).Nodup
  all : ∀ (frame : Frame) block, frame.repeats which = true → network.Lays index frame block →
    ∃ other ∈ found, other.1 = block.1

section Blocks

variable {kind : Frame → Bool}

mutual

theorem Trail.starts_blocks_sublist : ∀ (trail : Trail),
    ((trail.blocks kind).map fun block => block.1.left).Sublist (trail.joints.flatMap Joint.ids)
  | .done => .slnil
  | .step _ _ rest => rest.starts_blocks_sublist
  | .gap _ rest => rest.starts_blocks_sublist
  | .block frame start exit ways rest => by
      simp only [Trail.blocks, Trail.joints, List.map_append, List.flatMap_append, List.flatMap_cons]
      refine ways.starts_blocks_sublist.append (List.Sublist.append ?_ rest.starts_blocks_sublist)
      split
      · exact List.singleton_sublist.mpr List.mem_cons_self
      · exact List.nil_sublist _

theorem Ways.starts_blocks_sublist : ∀ (ways : Ways),
    ((ways.blocks kind).map fun block => block.1.left).Sublist (ways.joints.flatMap Joint.ids)
  | .none => .slnil
  | .more way rest => by
      simp only [Ways.blocks, Ways.joints, List.map_append, List.flatMap_append]
      exact way.starts_blocks_sublist.append rest.starts_blocks_sublist

end

mutual

theorem Trail.exists_block {joint : Joint} (chosen : kind joint.frame = true) : ∀ (trail : Trail),
    joint ∈ trail.joints → ∃ block ∈ trail.blocks kind, block.1 = ⟨joint.start, joint.exit⟩
  | .step _ _ rest, listed => rest.exists_block chosen listed
  | .gap _ rest, listed => rest.exists_block chosen listed
  | .block frame start exit ways rest, listed => by
      simp only [Trail.joints, List.mem_append, List.mem_cons] at listed
      simp only [Trail.blocks, List.mem_append]
      rcases listed with inner | rfl | later
      · obtain ⟨block, among, same⟩ := ways.exists_block chosen inner
        exact ⟨block, Or.inl among, same⟩
      · exact ⟨(⟨start, exit⟩, ways), Or.inr (Or.inl (by rw [if_pos chosen]; exact List.mem_cons_self)), rfl⟩
      · obtain ⟨block, among, same⟩ := rest.exists_block chosen later
        exact ⟨block, Or.inr (Or.inr among), same⟩

theorem Ways.exists_block {joint : Joint} (chosen : kind joint.frame = true) : ∀ (ways : Ways),
    joint ∈ ways.joints → ∃ block ∈ ways.blocks kind, block.1 = ⟨joint.start, joint.exit⟩
  | .more way rest, listed => by
      simp only [Ways.blocks, List.mem_append]
      rcases List.mem_append.mp listed with here | later
      · obtain ⟨block, among, same⟩ := way.exists_block chosen here
        exact ⟨block, Or.inl among, same⟩
      · obtain ⟨block, among, same⟩ := rest.exists_block chosen later
        exact ⟨block, Or.inr among, same⟩

end

end Blocks

/-- The start of a block tells what is repeated. -/
theorem Frame.repeats_of_startState {frame other : Frame} {which : Repetition → Bool} {rule : Option Nat}
    {exit last : StateId} {entries targets : List StateId} (apart : last ∉ targets)
    (same : other.startState rule last targets = frame.startState rule exit entries)
    (chosen : frame.repeats which = true) : other.repeats which = true ∧ last = exit := by
  obtain ⟨_, kinds, transitions, _, _⟩ := State.mk.inj same
  obtain ⟨kind, ends, _⟩ := StateKind.blockStart.inj kinds
  obtain rfl : last = exit := Option.some.inj ends
  refine ⟨?_, rfl⟩
  cases frame with
  | plain => cases chosen
  | optional decision greedy =>
      cases other with
      | plain =>
          -- The end of an optional block is among the targets of its start.
          rw [List.map_inj_right fun _ _ equal => (Transition.mk.inj equal).1] at transitions
          refine absurd ?_ apart
          rw [show targets = _ from transitions]
          cases greedy <;> simp [Frame.startTargets]
      | optional => exact chosen
      | star | plus => cases kind
  | star => cases other <;> first | exact chosen | cases kind
  | plus => cases other <;> first | exact chosen | cases kind

theorem Joint.eq_start {joint : Joint} {rule : Option Nat} {next : Option StateId} {entry : StateId × State}
    (member : entry ∈ joint.states rule next) {kind : BlockKind} {exit loopBack : Option StateId}
    (opens : entry.2.kind = .blockStart kind exit loopBack) :
    entry = (joint.start, joint.frame.startState rule joint.exit joint.entries) := by
  simp only [Joint.states, Frame.states, List.mem_cons] at member
  rcases member with same | rfl | inLoop
  · exact same
  · cases opens
  · cases frame : joint.frame <;>
      simp only [frame, Frame.loopStates, List.mem_cons, List.not_mem_nil, or_false] at inLoop
    · rcases inLoop with rfl | rfl | rfl <;> cases opens
    · rcases inLoop with rfl | rfl <;> cases opens

namespace Network.Houses

variable {network : Network} {others : Heap} {parts : List RulePart} {index : Nat} {part : RulePart}

/-- The start of a block that stands in a rule is that of a joint of its body. -/
theorem exists_joint (houses : network.Houses others parts) (found : parts[index]? = some part) {frame : Frame}
    {block : Handle × Ways} (lays : network.Lays index frame block) : ∃ joint ∈ part.body.joints,
      joint.start = block.1.left ∧ joint.frame.startState (some index) joint.exit joint.entries =
        frame.startState (some index) block.1.right (block.2.entries block.1.right) := by
  rcases houses.mem_of_state? lays.opens with outside | ⟨number, other, listed, inside⟩
  · cases (houses.neutral _ outside).rule
  · simp only [RulePart.heap, List.mem_cons, Prod.mk.injEq] at inside
    rcases inside with ⟨_, same⟩ | ⟨_, same⟩ | within
    · cases congrArg State.kind same
    · cases congrArg State.kind same
    · rcases other.body.mem_layout within with ⟨transitions, basic, _⟩ | ⟨joint, among, next, member⟩
      · cases congrArg State.kind basic
      · have start := Joint.eq_start member rfl
        obtain ⟨left, state⟩ := Prod.mk.inj start
        obtain rfl : index = number := Option.some.inj (congrArg State.rule state)
        obtain rfl : other = part := Option.some.inj (listed.symm.trans found)
        exact ⟨joint, among, left.symm, state.symm⟩

theorem laidOut (houses : network.Houses others parts) (filled : ∀ part ∈ parts, part.body.Filled)
    (found : parts[index]? = some part) (which : Repetition → Bool) :
    network.LaidOut index which (part.body.blocks (Frame.repeats which)) where
  lays block listed := houses.lays found (filled part (List.mem_of_getElem? found)) listed
  once := by
    refine part.body.starts_blocks_sublist.nodup (List.nodup_iff_count_le_one.mpr fun id => ?_)
    exact Nat.le_trans (part.body.count_joints id) (List.nodup_iff_count_le_one.mp (houses.nodup_body found) id)
  all frame block chosen lays := by
    obtain ⟨joint, listed, left, same⟩ := houses.exists_joint found lays
    have inRules : joint ∈ RulePart.joints parts :=
      List.mem_flatMap.mpr ⟨part, List.mem_of_getElem? found, listed⟩
    obtain ⟨repeated, right⟩ := Frame.repeats_of_startState (houses.holds_joint filled inRules).2 same chosen
    obtain ⟨other, among, handle⟩ := part.body.exists_block repeated listed
    exact ⟨other, among, handle.trans (by rw [left, right])⟩

end Network.Houses

end GrammarNetwork
