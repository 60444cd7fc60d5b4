import Mathlib.Data.List.Nodup
import GrammarNetwork.Proofs.Decisions
import GrammarNetwork.Proofs.Occurrences

/-! Priorities: the order of the ways out of a state is the order in which they are tried, so the start of a block
leads to its alternatives in their order, and a loop or an optional block is left last if it is greedy and first if it
is not. The states of a block refer to each other. -/

namespace GrammarNetwork

namespace Network

variable (network : Network)

/-- What the state with this number is for. -/
def kind? (id : StateId) : Option StateKind :=
  (network.state? id).map State.kind

/-- The state is for this, leads to exactly these states in this order without consuming anything, and is greedy or
not. -/
def Directs (id : StateId) (kind : StateKind) (targets : List StateId) (nonGreedy : Bool) : Prop :=
  ∃ state, network.state? id = some state ∧ state.kind = kind ∧ state.transitions = targets.map .silent ∧
    state.nonGreedy = nonGreedy

/-- The joint is that of the block: its start leads to where the pieces of the alternatives are entered, its states
refer to each other, and what is tried first depends on whether the suffix is greedy. -/
def Arranges (joint : Joint) (assembly : Assembly) : Prop :=
  let entries := assembly.pieces.map Handle.left
  assembly.pieces.length = assembly.body.alternatives.length ∧
  network.kind? joint.exit = some (.blockEnd (some joint.start)) ∧
  match assembly.body.suffix, joint.frame with
  | none, .plain _ => network.Directs joint.start (.blockStart .plain (some joint.exit) none) entries false
  | some ⟨.optional, greedy⟩, .optional _ _ =>
      joint.exit ∉ entries ∧
      network.Directs joint.start (.blockStart .plain (some joint.exit) none)
        (if greedy then entries ++ [joint.exit] else joint.exit :: entries) (!greedy)
  | some ⟨.star, greedy⟩, .star _ _ entry loopBack loopEnd _ =>
      network.Directs joint.start (.blockStart .star (some joint.exit) none) entries false ∧
      network.Directs entry (.starLoopEntry (some loopBack))
        (if greedy then [joint.start, loopEnd] else [loopEnd, joint.start]) (!greedy) ∧
      network.Directs loopBack .starLoopBack [entry] false ∧
      network.kind? loopEnd = some (.loopEnd (some loopBack))
  | some ⟨.plus, greedy⟩, .plus _ _ loopBack loopEnd _ =>
      network.Directs joint.start (.blockStart .plus (some joint.exit) (some loopBack)) entries false ∧
      network.Directs loopBack .plusLoopBack
        (if greedy then [joint.start, loopEnd] else [loopEnd, joint.start]) (!greedy) ∧
      network.kind? loopEnd = some (.loopEnd (some loopBack))
  | _, _ => False

end Network

/-- The state where it is chosen between the alternatives and the way past them. -/
def Joint.fork (joint : Joint) : StateId :=
  match joint.frame with
  | .plain _ | .optional _ _ => joint.start
  | .star _ _ entry _ _ _ => entry
  | .plus _ _ loopBack _ _ => loopBack

/-- The block has a suffix that is not greedy. -/
def Block.isNonGreedy (body : Block) : Bool :=
  body.suffix.any fun suffix => !suffix.greedy

/-- Each of the blocks has a joint of its own in the network, and no state of a block or loop stands outside of them.
Just where a suffix is not greedy, a state is marked so. -/
structure Network.Prioritizes (network : Network) (joints : List Joint) (blocks : List Assembly) : Prop where
  distinct : (joints.flatMap Joint.ids).Nodup
  arranged : List.Forall₂ network.Arranges joints blocks
  complete : ∀ id state, network.state? id = some state → state.kind.isOfBlock = true → id ∈ joints.flatMap Joint.ids
  nonGreedy : ∀ id state, network.state? id = some state → (state.nonGreedy = true ↔
    ∃ joint assembly, (joint, assembly) ∈ joints.zip blocks ∧ assembly.body.isNonGreedy = true ∧ joint.fork = id)

section Blocks

mutual

theorem Build.body_elementAssemblies (plan : Plan) : ∀ (element : Element) (site : Site) (before : Construction),
    (elementAssemblies plan site before element).map Assembly.body = element.parts.filterMap Element.block?
  | ⟨.block ⟨alternatives, suffix⟩, position⟩, site, before => by
      simp [elementAssemblies, Element.parts, body_alternativeAssemblies plan alternatives, Element.block?]
  | ⟨.token _, _⟩, _, _ | ⟨.rule _ _, _⟩, _, _ | ⟨.literal _, _⟩, _, _ | ⟨.charSet _, _⟩, _, _
  | ⟨.range _ _, _⟩, _, _ | ⟨.set _ _, _⟩, _, _ | ⟨.wildcard, _⟩, _, _ | ⟨.action _ _, _⟩, _, _
  | ⟨.predicate _ _ _, _⟩, _, _ => rfl

theorem Build.body_listAssemblies (plan : Plan) : ∀ (elements : List Element) (site : Site) (alternative number : Nat)
    (before : Construction),
    (listAssemblies plan site alternative number before elements).map Assembly.body =
      (listParts elements).filterMap Element.block?
  | [], _, _, _, _ => rfl
  | first :: rest, site, alternative, number, before => by
      rw [listAssemblies, List.map_append, body_elementAssemblies plan first, body_listAssemblies plan rest, listParts,
        List.filterMap_append]

theorem Build.body_alternativeAssemblies (plan : Plan) : ∀ (alternatives : List Alternative) (site : Site)
    (number : Nat) (before : Construction),
    (alternativeAssemblies plan site number before alternatives).map Assembly.body =
      (alternativeParts alternatives).filterMap Element.block?
  | [], _, _, _ => rfl
  | ⟨elements, written⟩ :: rest, site, number, before => by
      rw [alternativeAssemblies, List.map_append, body_listAssemblies plan elements,
        body_alternativeAssemblies plan rest, alternativeParts, List.filterMap_append]

end

theorem Build.body_ruleAssemblies (plan : Plan) (entries : List (Rule × Nat)) (before : Construction) :
    (ruleAssemblies plan before entries).map Assembly.body = entries.flatMap fun entry => entry.1.blocks := by
  induction entries generalizing before with
  | nil => rfl
  | cons entry rest ih =>
      rw [ruleAssemblies, List.map_append, ih, List.flatMap_cons, entryAssemblies, bodyAssemblies, List.map_append,
        body_alternativeAssemblies]
      rfl

/-- The blocks that are built are those of the rules. -/
theorem Build.body_assemblies (plan : Plan) (journal : Journal) :
    (assemblies plan journal).map Assembly.body = plan.grammar.rules.toList.flatMap Rule.blocks := by
  have first : plan.grammar.rules.toList.zipIdx.map Prod.fst = plan.grammar.rules.toList := by simp
  rw [assemblies, body_ruleAssemblies]
  conv => rhs; rw [← first, List.flatMap_map]

/-- `a : (B | C)*? ;` -/
def lazyLoop : Plan where
  grammar :=
    { kind := .parser
      name := "P"
      fileName := "P.g4"
      caseInsensitive := false
      rules := #[
        { name := "a"
          alternatives := [{ elements := [⟨.block {
            alternatives := [{ elements := [⟨.token "B", none⟩] }, { elements := [⟨.token "C", none⟩] }]
            suffix := some ⟨.star, false⟩ }, none⟩] }] }]
      tokens := ["B", "C"]
      channels := []
      modes := [defaultModeName]
      actionCount := 0 }
  kind := .parser

-- the loop branches, the body of the rule does not
example : (Assembly.branching (Build.assemblies lazyLoop {})).map Assembly.pieces = [[⟨2, 3⟩, ⟨4, 5⟩]] := by
  decide +kernel

end Blocks

mutual

theorem Trail.inside_of_joints {joint : Joint} : ∀ (trail : Trail), joint ∈ trail.joints →
    ∃ ways rest, joint.entries = ways.entries joint.exit ∧
      Trail.Inside (.block joint.frame joint.start joint.exit ways rest) trail
  | .step _ _ rest, listed => by
      obtain ⟨ways, behind, same, inside⟩ := rest.inside_of_joints listed
      exact ⟨ways, behind, same, inside.step⟩
  | .gap _ rest, listed => by
      obtain ⟨ways, behind, same, inside⟩ := rest.inside_of_joints listed
      exact ⟨ways, behind, same, inside.gap⟩
  | .block frame start exit ways rest, listed => by
      simp only [Trail.joints, List.mem_append, List.mem_cons] at listed
      rcases listed with inner | rfl | later
      · obtain ⟨way, among, ways, behind, same, inside⟩ := ways.inside_of_joints inner
        exact ⟨ways, behind, same, inside.within among⟩
      · exact ⟨ways, rest, rfl, .here⟩
      · obtain ⟨ways, behind, same, inside⟩ := rest.inside_of_joints later
        exact ⟨ways, behind, same, inside.behind⟩

theorem Ways.inside_of_joints {joint : Joint} : ∀ (ways : Ways), joint ∈ ways.joints →
    ∃ way ∈ ways.toList, ∃ ways rest, joint.entries = ways.entries joint.exit ∧
      Trail.Inside (.block joint.frame joint.start joint.exit ways rest) way
  | .more way rest, listed => by
      rcases List.mem_append.mp listed with here | later
      · exact ⟨way, List.mem_cons_self, way.inside_of_joints here⟩
      · obtain ⟨other, among, found⟩ := rest.inside_of_joints later
        exact ⟨other, List.mem_cons_of_mem _ among, found⟩

end

theorem RulePart.count_joints (starts : Array StateId) (id : StateId) (parts : List RulePart) (index : Nat) :
    ((RulePart.joints parts).flatMap Joint.ids).count id ≤ (RulePart.heaps starts index parts).ids.count id := by
  induction parts generalizing index with
  | nil => exact Nat.le_refl _
  | cons part parts ih =>
      have first := part.body.count_joints id
      have later := ih (index + 1)
      simp only [RulePart.joints, List.flatMap_cons, List.flatMap_append, List.count_append, RulePart.heaps,
        RulePart.heap, Heap.ids_append, Heap.ids_cons, Trail.ids_layout, List.count_cons] at later ⊢
      omega

namespace Network.Houses

variable {network : Network} {others : Heap} {parts : List RulePart} {joint : Joint}

theorem nodup_joints (houses : network.Houses others parts) : ((RulePart.joints parts).flatMap Joint.ids).Nodup := by
  have unique := houses.stands.unique
  rw [Heap.ids_append] at unique
  refine List.nodup_iff_count_le_one.mpr fun id => Nat.le_trans (RulePart.count_joints network.ruleStarts id parts 0) ?_
  exact List.nodup_iff_count_le_one.mp (List.nodup_append.mp unique).2.1 id

/-- The states of a joint are in the network, and none of its alternatives begins at its end. -/
theorem holds_joint (houses : network.Houses others parts) (filled : ∀ part ∈ parts, part.body.Filled)
    (listed : joint ∈ RulePart.joints parts) :
    (∃ rule next, network.Holds (joint.states rule next)) ∧ joint.exit ∉ joint.entries := by
  obtain ⟨part, among, inBody⟩ := List.mem_flatMap.mp listed
  obtain ⟨index, found⟩ := List.getElem?_of_mem among
  obtain ⟨ways, rest, entries, within⟩ := part.body.inside_of_joints inBody
  obtain ⟨next, holds⟩ := within.holds (houses.holds_body found)
  obtain ⟨_, _, _, apart, _⟩ := Trail.nodup_block.mp (within.ids.nodup (houses.nodup_body found))
  refine ⟨⟨some index, rest.enter next, ?_⟩, ?_⟩
  · rw [Joint.states, entries]
    exact (Network.holds_append.mp holds).1
  · rw [entries]
    exact fun entered => (apart joint.exit (by simp)).1
      (Ways.mem_ids_of_entries (within.filled (filled part among)).2.1 entered)

end Network.Houses

section Joints

variable {network : Network} {joint : Joint} {assembly : Assembly} {rule : Option Nat} {next : Option StateId}

theorem Joint.Frames.arranges (frames : joint.Frames assembly) (holds : network.Holds (joint.states rule next))
    (apart : joint.exit ∉ joint.entries) : network.Arranges joint assembly := by
  have atStart := holds.startState
  have atExit : network.kind? joint.exit = some (.blockEnd (some joint.start)) := by
    rw [Network.kind?, holds.exitState]
    rfl
  have inLoop := (Network.holds_cons.mp (Network.holds_cons.mp holds).2).2
  rw [frames.entries] at atStart apart
  refine ⟨frames.count, atExit, ?_⟩
  rcases Frame.around_cases frames.frame with ⟨plain, _, same⟩ | ⟨greedy, _, suffix, same⟩ |
    ⟨greedy, _, entry, loopBack, loopEnd, _, suffix, same, _⟩ | ⟨greedy, _, loopBack, loopEnd, _, suffix, same, _⟩
  · rw [same] at atStart
    simp only [plain, same]
    exact ⟨_, atStart, rfl, rfl, rfl⟩
  · rw [same] at atStart
    simp only [suffix, same]
    exact ⟨apart, _, atStart, rfl, rfl, rfl⟩
  · rw [same] at atStart
    simp only [same, Frame.loopStates, Network.holds_cons] at inLoop
    obtain ⟨atEntry, atEnd, atBack, _⟩ := inLoop
    simp only [suffix, same]
    refine ⟨⟨_, atStart, rfl, rfl, rfl⟩, ⟨_, atEntry, rfl, rfl, rfl⟩, ⟨_, atBack, rfl, rfl, rfl⟩, ?_⟩
    rw [Network.kind?, atEnd]
    rfl
  · rw [same] at atStart
    simp only [same, Frame.loopStates, Network.holds_cons] at inLoop
    obtain ⟨atBack, atEnd, _⟩ := inLoop
    simp only [suffix, same]
    refine ⟨⟨_, atStart, rfl, rfl, rfl⟩, ⟨_, atBack, rfl, rfl, rfl⟩, ?_⟩
    rw [Network.kind?, atEnd]
    rfl

/-- A state of a joint is marked when it is the fork of a suffix that is not greedy. -/
theorem Joint.Frames.marked (frames : joint.Frames assembly) {entry : StateId × State}
    (member : entry ∈ joint.states rule next) (marked : entry.2.nonGreedy = true) :
    assembly.body.isNonGreedy = true ∧ joint.fork = entry.1 := by
  simp only [Joint.states, Frame.states, List.mem_cons] at member
  rcases Frame.around_cases frames.frame with ⟨plain, _, same⟩ | ⟨greedy, _, suffix, same⟩ |
    ⟨greedy, _, head, loopBack, loopEnd, _, suffix, same, _⟩ | ⟨greedy, _, loopBack, loopEnd, _, suffix, same, _⟩ <;>
    simp only [same, Frame.loopStates, List.mem_cons, List.not_mem_nil, or_false] at member
  · rcases member with rfl | rfl <;> cases marked
  · rcases member with rfl | rfl
    · exact ⟨by simpa [Block.isNonGreedy, suffix, Frame.startState, Frame.blockNonGreedy] using marked,
        by simp [Joint.fork, same]⟩
    · cases marked
  · rcases member with rfl | rfl | rfl | rfl | rfl
    · cases marked
    · cases marked
    · exact ⟨by simpa [Block.isNonGreedy, suffix] using marked, by simp [Joint.fork, same]⟩
    · cases marked
    · cases marked
  · rcases member with rfl | rfl | rfl | rfl
    · cases marked
    · cases marked
    · exact ⟨by simpa [Block.isNonGreedy, suffix] using marked, by simp [Joint.fork, same]⟩
    · cases marked

/-- The fork of a suffix that is not greedy is marked. -/
theorem Network.Arranges.marked (arranges : network.Arranges joint assembly)
    (nonGreedy : assembly.body.isNonGreedy = true) :
    ∃ state, network.state? joint.fork = some state ∧ state.nonGreedy = true := by
  obtain ⟨_, _, arranges⟩ := arranges
  unfold Block.isNonGreedy at nonGreedy
  unfold Joint.fork
  split at arranges
  · rename_i none _
    rw [none] at nonGreedy
    cases nonGreedy
  · rename_i suffix same
    rw [suffix] at nonGreedy
    obtain ⟨_, state, found, _, _, marked⟩ := arranges
    rw [same]
    exact ⟨state, found, marked.trans nonGreedy⟩
  · rename_i suffix same
    rw [suffix] at nonGreedy
    obtain ⟨_, ⟨state, found, _, _, marked⟩, _⟩ := arranges
    rw [same]
    exact ⟨state, found, marked.trans nonGreedy⟩
  · rename_i suffix same
    rw [suffix] at nonGreedy
    obtain ⟨_, ⟨state, found, _, _, marked⟩, _⟩ := arranges
    rw [same]
    exact ⟨state, found, marked.trans nonGreedy⟩
  · exact arranges.elim

end Joints

namespace Build.Completion

variable {plan : Plan} {journal : Journal} {network : Network} {after : Construction} {others : Heap}
  {parts : List RulePart}

/-- A state that is marked or belongs to a block is one of a joint. -/
theorem mem_joint (completion : Completion plan journal network after others parts) {id : StateId} {state : State}
    (found : network.state? id = some state) (special : state.nonGreedy = true ∨ state.kind.isOfBlock = true) :
    ∃ joint ∈ RulePart.joints parts, ∃ rule next, (id, state) ∈ joint.states rule next := by
  rcases completion.state_cases found with ⟨greedy, outside, _⟩ | inside
  · simp [greedy, outside] at special
  · exact inside

theorem prioritizes (completion : Completion plan journal network after others parts) :
    network.Prioritizes (RulePart.joints parts) (Assembly.branching (assemblies plan journal)) := by
  have framed := completion.framed
  have houses := completion.makes.houses
  have filled := RulePart.filled_of_draws completion.makes.draws
  have arranged : List.Forall₂ network.Arranges (RulePart.joints parts)
      (Assembly.branching (assemblies plan journal)) := by
    refine List.forall₂_iff_zip.mpr ⟨framed.length_eq, fun {joint assembly} paired => ?_⟩
    obtain ⟨⟨rule, next, holds⟩, apart⟩ := houses.holds_joint filled (List.of_mem_zip paired).1
    exact (framed.frames paired).2.arranges holds apart
  refine ⟨houses.nodup_joints, arranged, fun id state found ofBlock => ?_, fun id state found => ⟨fun marked => ?_, ?_⟩⟩
  · obtain ⟨joint, listed, rule, next, member⟩ := completion.mem_joint found (Or.inr ofBlock)
    refine List.mem_flatMap.mpr ⟨joint, listed, ?_⟩
    rw [Joint.ids, ← Frame.ids_states rule joint.start joint.exit joint.entries next joint.frame]
    exact Heap.mem_ids_of_mem member
  · obtain ⟨joint, listed, rule, next, member⟩ := completion.mem_joint found (Or.inl marked)
    obtain ⟨assembly, paired⟩ := framed.pair listed
    exact ⟨joint, assembly, paired, (framed.frames paired).2.marked member marked⟩
  · rintro ⟨joint, assembly, paired, nonGreedy, rfl⟩
    obtain ⟨other, here, marked⟩ := ((List.forall₂_iff_zip.mp arranged).2 paired).marked nonGreedy
    rw [found] at here
    cases here
    exact marked

end Build.Completion

/-- In every network that is built, each block of the grammar that branches has its states. They lead to its
alternatives in their order and are left as its suffix says. -/
theorem Plan.run_priorities (plan : Plan) (journal : Journal) :
    match plan.run journal with
    | .ok network _ =>
        (Build.assemblies plan journal).map Assembly.body = plan.grammar.rules.toList.flatMap Rule.blocks ∧
          ∃ joints, network.Prioritizes joints (Assembly.branching (Build.assemblies plan journal))
    | .error _ _ => True := by
  split
  · rename_i network after ends
    obtain ⟨others, parts, completion⟩ := completes_of_run ends
    exact ⟨Build.body_assemblies plan journal, RulePart.joints parts, completion.prioritizes⟩
  · trivial

end GrammarNetwork
