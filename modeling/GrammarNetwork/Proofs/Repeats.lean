import GrammarNetwork.Proofs.Languages
import GrammarNetwork.Proofs.Occurrences

/-! Repeats: the blocks with a suffix in a trail are those of the syntax tree, in the same order, and what they
repeat has the same words. -/

namespace GrammarNetwork

def Repetition.isLoop : Repetition → Bool
  | .optional => false
  | .star | .plus => true

/-- The block is repeated in such a way. -/
def Block.repeats (which : Repetition → Bool) (block : Block) : Bool :=
  block.suffix.any fun suffix => which suffix.repetition

def Frame.repeats (which : Repetition → Bool) (frame : Frame) : Bool :=
  frame.repetition?.any which

theorem Frame.isLoop_eq_repeats : Frame.isLoop = Frame.repeats Repetition.isLoop := by
  funext frame
  cases frame <;> rfl

theorem Frame.isOptional_eq_repeats : Frame.isOptional = Frame.repeats (· = .optional) := by
  funext frame
  cases frame <;> rfl

section Bodies

variable (which : Repetition → Bool) (vocabulary : IntervalSet) (meanings : Meanings)

/-- The words of what is repeated in a trail. -/
def Trail.bodies (trail : Trail) : List (Language Letter) :=
  (trail.blocks (Frame.repeats which)).map fun block => block.2.words vocabulary meanings .blank

def Ways.bodies (ways : Ways) : List (Language Letter) :=
  (ways.blocks (Frame.repeats which)).map fun block => block.2.words vocabulary meanings .blank

/-- The words of what is repeated in these blocks of the rule with number `index`. -/
def Plan.bodies (plan : Plan) (index : Nat) (blocks : List Block) : List (Language Letter) :=
  (blocks.filter (Block.repeats which)).map fun block =>
    plan.plainWords vocabulary meanings index block.alternatives

theorem Plan.bodies_append (plan : Plan) (index : Nat) (first second : List Block) :
    plan.bodies which vocabulary meanings index (first ++ second) =
      plan.bodies which vocabulary meanings index first ++ plan.bodies which vocabulary meanings index second := by
  simp [Plan.bodies]

theorem Plan.bodies_singleton (plan : Plan) (index : Nat) (block : Block) :
    plan.bodies which vocabulary meanings index [block] =
      if block.repeats which then [plan.plainWords vocabulary meanings index block.alternatives] else [] := by
  rw [Plan.bodies, List.filter_singleton]
  cases block.repeats which <;> rfl

theorem Ways.bodies_more (way : Trail) (rest : Ways) :
    (Ways.more way rest).bodies which vocabulary meanings =
      way.bodies which vocabulary meanings ++ rest.bodies which vocabulary meanings :=
  List.map_append

theorem Trail.bodies_block (frame : Frame) (start exit : StateId) (ways : Ways) (rest : Trail) :
    (Trail.block frame start exit ways rest).bodies which vocabulary meanings =
      ways.bodies which vocabulary meanings ++
        ((if frame.repeats which then [ways.words vocabulary meanings .blank] else []) ++
          rest.bodies which vocabulary meanings) := by
  rw [Trail.bodies, Trail.blocks, List.map_append, List.map_append]
  split <;> rfl

mutual

theorem Trail.bodies_erase : ∀ (trail : Trail),
    trail.erase.bodies which vocabulary meanings = trail.bodies which vocabulary meanings
  | .done => rfl
  | .step _ _ rest => rest.bodies_erase
  | .gap _ rest => rest.bodies_erase
  | .block frame _ _ ways rest => by
      have same : frame.erase.repeats which = frame.repeats which := by cases frame <;> rfl
      simp only [Trail.erase, Trail.bodies_block, same, ways.words_erase, ways.bodies_erase, rest.bodies_erase]

theorem Ways.bodies_erase : ∀ (ways : Ways),
    ways.erase.bodies which vocabulary meanings = ways.bodies which vocabulary meanings
  | .none => rfl
  | .more way rest => by simp only [Ways.erase, Ways.bodies_more, way.bodies_erase, rest.bodies_erase]

end

mutual

/-- Taking out tails leaves the blocks and their words. -/
theorem Trail.bodies_strip (other : Bool) : ∀ (trail : Trail),
    (trail.strip other).bodies which vocabulary meanings = trail.bodies which vocabulary meanings
  | .done => rfl
  | .step source label rest => by
      rw [Trail.strip]
      split
      · rename_i strips
        obtain ⟨_, _, rfl, _⟩ := Trail.passes_eq_true.mp (Bool.and_eq_true_iff.mp strips).2
        rfl
      · split
        · rfl
        · exact rest.bodies_strip other
  | .gap _ _ => rfl
  | .block frame start exit ways rest => by
      have behind : (if frame.skips || ways.passable then rest.strip other else rest).bodies which vocabulary
          meanings = rest.bodies which vocabulary meanings := by
        split
        · exact rest.bodies_strip other
        · rfl
      rw [Trail.strip, Trail.bodies_block, ways.words_strip, ways.bodies_strip, behind, Trail.bodies_block]

theorem Ways.bodies_strip (other : Bool) : ∀ (ways : Ways),
    (ways.strip other).bodies which vocabulary meanings = ways.bodies which vocabulary meanings
  | .none => rfl
  | .more way rest => by simp only [Ways.strip, Ways.bodies_more, way.bodies_strip, rest.bodies_strip]

end

theorem Trail.bodies_append (trail next : Trail) : (trail.append next).bodies which vocabulary meanings =
    trail.bodies which vocabulary meanings ++ next.bodies which vocabulary meanings := by
  rw [Trail.bodies, Trail.blocks_append, List.map_append]
  rfl

theorem Trail.bodies_joinAll : ∀ (trails : List Trail), (Trail.joinAll trails).bodies which vocabulary meanings =
    trails.flatMap (Trail.bodies which vocabulary meanings)
  | [] => rfl
  | [trail] => (List.append_nil _).symm
  | trail :: next :: rest => by
      rw [Trail.joinAll, Trail.bodies, Trail.blocks_join, List.map_append, List.flatMap_cons,
        ← Trail.bodies_joinAll (next :: rest)]
      rfl

theorem Trail.bodies_chain : ∀ (labels : List Label), (Trail.chain labels).bodies which vocabulary meanings = []
  | [] => rfl
  | _ :: rest => Trail.bodies_chain rest

theorem Leaf.bodies_trail (leaf : Leaf) : leaf.trail.bodies which vocabulary meanings = [] := by
  cases leaf with
  | chain labels => exact Trail.bodies_chain which vocabulary meanings labels
  | broken => rfl

theorem Ways.bodies_ofList (trails : List Trail) : (Ways.ofList trails).bodies which vocabulary meanings =
    trails.flatMap (Trail.bodies which vocabulary meanings) := by
  induction trails with
  | nil => rfl
  | cons trail trails ih => rw [Ways.ofList, Ways.bodies_more, ih, List.flatMap_cons]

theorem Trail.bodies_ofBlock {suffix : Option Suffix} {trails : List Trail} {trail : Trail}
    (drawn : Trail.ofBlock suffix trails = some trail) : trail.bodies which vocabulary meanings =
      trails.flatMap (Trail.bodies which vocabulary meanings) ++
        if suffix.any (fun suffix => which suffix.repetition) then
          [(trails.map (Trail.words vocabulary meanings .blank)).sum]
        else [] := by
  rcases Trail.ofBlock_cases drawn with ⟨rfl, rfl⟩ | ⟨frame, other, rfl, _, same⟩
  · simp
  · have shape : frame.repeats which = suffix.any fun suffix => which suffix.repetition := by
      rw [Frame.repeats, same]
      cases suffix <;> rfl
    have words : (trails.map (Trail.strip other)).map (Trail.words vocabulary meanings .blank) =
        trails.map (Trail.words vocabulary meanings .blank) := by
      simp [Function.comp_def, Trail.words_strip]
    have inner : (trails.map (Trail.strip other)).flatMap (Trail.bodies which vocabulary meanings) =
        trails.flatMap (Trail.bodies which vocabulary meanings) := by
      simp [List.flatMap_map, Trail.bodies_strip]
    rw [Trail.bodies_block, Ways.bodies_ofList, Ways.words_ofList, words, inner, shape]
    exact congrArg _ (List.append_nil _)

end Bodies

section Sketches

variable {plan : Plan} {index : Nat} {which : Repetition → Bool} {vocabulary : IntervalSet} {meanings : Meanings}

theorem bodies_sketchCommands : ∀ {written : List Command} {trails : List Trail},
    plan.sketchCommands index written = some trails →
    trails.flatMap (Trail.bodies which vocabulary meanings) = []
  | [], _, drawn => by
      cases drawn
      rfl
  | first :: rest, _, drawn => by
      simp only [Plan.sketchCommands, Option.bind_eq_bind, Option.bind_eq_some_iff, Option.map_eq_some_iff,
        Option.pure_def, Option.some.injEq] at drawn
      obtain ⟨_, ⟨label, _, rfl⟩, trails, later, rfl⟩ := drawn
      rw [List.flatMap_cons, Trail.bodies_chain, bodies_sketchCommands later]
      rfl

theorem bodies_assembleSketch {trails : List Trail} {written : List Command} {trail : Trail}
    (drawn : plan.assembleSketch index trails written = some trail) :
    trail.bodies which vocabulary meanings = trails.flatMap (Trail.bodies which vocabulary meanings) := by
  have body : (if trails.isEmpty then Trail.chain [.epsilon] else Trail.joinAll trails).bodies which vocabulary
      meanings = trails.flatMap (Trail.bodies which vocabulary meanings) := by
    cases trails with
    | nil => rfl
    | cons first rest => exact Trail.bodies_joinAll which vocabulary meanings (first :: rest)
  simp only [Plan.assembleSketch] at drawn
  split at drawn
  · cases drawn
    exact body
  · obtain ⟨commands, made, rfl⟩ := Option.map_eq_some_iff.mp drawn
    rw [Trail.bodies_append, body, Trail.bodies_joinAll, bodies_sketchCommands made, List.append_nil]

mutual

/-- The sketch of an element repeats what the blocks of the element repeat. -/
theorem bodies_sketch : ∀ {element : Element} {trail : Trail}, plan.sketch index element = some trail →
    trail.bodies which vocabulary meanings =
      plan.bodies which vocabulary meanings index (element.parts.filterMap Element.block?)
  | ⟨.block ⟨alternatives, suffix⟩, _⟩, trail, drawn => by
      simp only [Plan.sketch, Option.bind_eq_bind, Option.bind_eq_some_iff] at drawn
      obtain ⟨trails, made, framed⟩ := drawn
      rw [Trail.bodies_ofBlock which vocabulary meanings framed, bodies_sketchAlternatives made,
        words_plain made, Element.parts, List.filterMap_append, Plan.bodies_append]
      exact congrArg _ (plan.bodies_singleton which vocabulary meanings index ⟨alternatives, suffix⟩).symm
  | ⟨.token _, _⟩, _, drawn | ⟨.rule _ _, _⟩, _, drawn | ⟨.literal _, _⟩, _, drawn | ⟨.charSet _, _⟩, _, drawn
  | ⟨.range _ _, _⟩, _, drawn | ⟨.set _ _, _⟩, _, drawn | ⟨.wildcard, _⟩, _, drawn | ⟨.action _ _, _⟩, _, drawn
  | ⟨.predicate _ _ _, _⟩, _, drawn => by
      obtain ⟨leaf, _, rfl⟩ := Option.map_eq_some_iff.mp drawn
      exact leaf.bodies_trail which vocabulary meanings

theorem bodies_sketchList : ∀ {elements : List Element} {trails : List Trail},
    plan.sketchList index elements = some trails →
    trails.flatMap (Trail.bodies which vocabulary meanings) =
      plan.bodies which vocabulary meanings index ((listParts elements).filterMap Element.block?)
  | [], _, drawn => by
      cases drawn
      rfl
  | first :: rest, _, drawn => by
      simp only [Plan.sketchList, Option.bind_eq_bind, Option.bind_eq_some_iff, Option.pure_def,
        Option.some.injEq] at drawn
      obtain ⟨trail, made, trails, later, rfl⟩ := drawn
      rw [List.flatMap_cons, bodies_sketch made, bodies_sketchList later, listParts, List.filterMap_append,
        Plan.bodies_append]

theorem bodies_sketchAlternatives : ∀ {alternatives : List Alternative} {trails : List Trail},
    plan.sketchAlternatives index alternatives = some trails →
    trails.flatMap (Trail.bodies which vocabulary meanings) =
      plan.bodies which vocabulary meanings index ((alternativeParts alternatives).filterMap Element.block?)
  | [], _, drawn => by
      cases drawn
      rfl
  | ⟨elements, written⟩ :: rest, _, drawn => by
      simp only [Plan.sketchAlternatives, Option.bind_eq_bind, Option.bind_eq_some_iff, Option.pure_def,
        Option.some.injEq] at drawn
      obtain ⟨trails, made, trail, assembled, others, later, rfl⟩ := drawn
      rw [List.flatMap_cons, bodies_assembleSketch assembled, bodies_sketchList made,
        bodies_sketchAlternatives later, alternativeParts, List.filterMap_append, Plan.bodies_append]

end

theorem bodies_sketchBody {rule : Rule} {trail : Trail} (drawn : plan.sketchBody index rule.body = some trail) :
    trail.bodies which vocabulary meanings = plan.bodies which vocabulary meanings index rule.blocks := by
  simp only [Plan.sketchBody, Option.bind_eq_bind, Option.bind_eq_some_iff] at drawn
  obtain ⟨trails, made, framed⟩ := drawn
  rw [Trail.bodies_ofBlock which vocabulary meanings framed, bodies_sketchAlternatives made, Rule.blocks,
    Plan.bodies_append]
  rfl

end Sketches

end GrammarNetwork
