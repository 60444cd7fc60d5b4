import Mathlib.Data.List.Sigma
import GrammarNetwork.Proofs.Closed
import GrammarNetwork.Proofs.Languages
import GrammarNetwork.Proofs.Occurrences

/-! Labels: which transitions of a network stand for the elements and commands of a grammar. What a pass takes
out before the end of a block is gone, and when it was a predicate the element has no transition any more. -/

namespace GrammarNetwork

/-- The labels that are more than a way on, without the numbers that depend on the network. -/
def marks (labels : List Label) : List Label :=
  (labels.map Label.erase).filter (· ≠ .epsilon)

@[simp] theorem marks_nil : marks [] = [] := rfl

@[simp] theorem marks_append (first second : List Label) : marks (first ++ second) = marks first ++ marks second := by
  simp [marks]

@[simp] theorem marks_epsilon : marks [.epsilon] = [] := rfl

theorem marks_cons (label : Label) (labels : List Label) : marks (label :: labels) = marks [label] ++ marks labels :=
  marks_append [label] labels

theorem marks_perm {first second : List Label} (same : first.Perm second) : (marks first).Perm (marks second) :=
  (same.map Label.erase).filter _

@[simp] theorem marks_map_erase (labels : List Label) : marks (labels.map Label.erase) = marks labels := by
  simp [marks, List.map_map, Function.comp_def]

theorem marks_flatMap {α : Type} (labels : α → List Label) (items : List α) :
    marks (items.flatMap labels) = items.flatMap fun item => marks (labels item) := by
  induction items with
  | nil => rfl
  | cons item items ih => simp only [List.flatMap_cons, marks_append, ih]

theorem marks_edge (starts : Array StateId) (label : Label) (next : StateId) :
    marks [(label.edge starts next).label] = marks [label] := by
  cases label <;> rfl

def Heap.labels (heap : Heap) : List Label :=
  heap.flatMap fun entry => entry.2.transitions.map Transition.label

@[simp] theorem Heap.labels_append (first second : Heap) :
    Heap.labels (first ++ second) = first.labels ++ second.labels := by
  simp [Heap.labels]

theorem Heap.labels_cons (entry : StateId × State) (heap : Heap) :
    Heap.labels (entry :: heap) = entry.2.transitions.map Transition.label ++ heap.labels := rfl

theorem marks_silent (targets : List StateId) :
    marks ((targets.map Transition.silent).map Transition.label) = [] := by
  simp [marks, List.filter_eq_nil_iff, Label.erase]

/-- The states around the alternatives only lead on. -/
theorem Frame.marks_states (rule : Option Nat) (start exit : StateId) (entries : List StateId)
    (next : Option StateId) (frame : Frame) :
    marks (frame.states rule start exit entries next).labels = [] := by
  cases frame <;>
    simp only [Frame.states, Frame.loopStates, Frame.startState, Frame.exitState, Heap.labels_cons, marks_append,
      marks_silent, List.nil_append] <;>
    rfl

mutual

/-- What is laid out of a trail has the labels of the trail. -/
theorem Trail.marks_layout (starts : Array StateId) (rule : Option Nat) : ∀ (trail : Trail) (next : StateId),
    marks (trail.layout starts rule (some next)).labels = marks trail.labels
  | .done, _ => rfl
  | .step source label rest, next => by
      obtain ⟨target, entered⟩ := rest.enter_some next
      simp only [Trail.layout, entered, Heap.labels_cons, Trail.labels, marks_append,
        rest.marks_layout starts rule next]
      rw [marks_cons label, ← marks_edge starts label target]
      rfl
  | .gap source rest, next => by
      simp only [Trail.layout, Heap.labels_cons, Trail.labels]
      exact rest.marks_layout starts rule next
  | .block frame start exit ways rest, next => by
      simp only [Trail.layout, Heap.labels_append, marks_append, Frame.marks_states, Trail.labels,
        ways.marks_layout starts rule exit, rest.marks_layout starts rule next, List.nil_append]

theorem Ways.marks_layout (starts : Array StateId) (rule : Option Nat) : ∀ (ways : Ways) (exit : StateId),
    marks (ways.layout starts rule exit).labels = marks ways.labels
  | .none, _ => rfl
  | .more way rest, exit => by
      simp only [Ways.layout, Heap.labels_append, marks_append, Ways.labels,
        way.marks_layout starts rule exit, rest.marks_layout starts rule exit]

end

theorem perm_gather {kept lost all keptLater lostLater allLater : List Label} (first : (kept ++ lost).Perm all)
    (later : (keptLater ++ lostLater).Perm allLater) :
    ((kept ++ keptLater) ++ (lost ++ lostLater)).Perm (all ++ allLater) := by
  refine List.Perm.trans ?_ (first.append later)
  simp only [List.append_assoc]
  exact (List.perm_append_comm_assoc _ _ _).append_left _

mutual

/-- The labels of the states that one pass takes out of a trail, where `other` says that the block whose end it
leads to is not the body of a star loop. -/
def Trail.taken (other : Bool) : Trail → List Label
  | .done => []
  | .step _ label rest =>
      if other && rest.passes then rest.labels else if label.isCall then [] else rest.taken other
  | .gap _ _ => []
  | .block frame _ _ ways rest =>
      ways.taken (!frame.isStar) ++ if frame.skips || ways.passable then rest.taken other else []

def Ways.taken (other : Bool) : Ways → List Label
  | .none => []
  | .more way rest => way.taken other ++ rest.taken other

end

mutual

/-- A pass leaves a label or takes it out. -/
theorem Trail.labels_taken : ∀ (trail : Trail) (other : Bool),
    ((trail.strip other).labels ++ trail.taken other).Perm trail.labels
  | .done, _ => .refl _
  | .step source label rest, other => by
      simp only [Trail.strip, Trail.taken]
      split
      · exact .refl _
      · split
        · simp
        · exact (rest.labels_taken other).cons label
  | .gap _ _, _ => by simp [Trail.strip, Trail.taken]
  | .block frame start exit ways rest, other => by
      have inner := ways.labels_taken !frame.isStar
      simp only [Trail.strip, Trail.taken, Trail.labels]
      split
      · exact perm_gather inner (rest.labels_taken other)
      · exact perm_gather inner (List.append_nil _ ▸ .refl _)

theorem Ways.labels_taken : ∀ (ways : Ways) (other : Bool),
    ((ways.strip other).labels ++ ways.taken other).Perm ways.labels
  | .none, _ => .refl _
  | .more way rest, other => perm_gather (way.labels_taken other) (rest.labels_taken other)

end

theorem Trail.labels_of_passes {trail : Trail} (passes : trail.passes = true) :
    ∀ label ∈ trail.labels, label.passes = true := by
  unfold Trail.passes at passes
  split at passes
  · simpa [Trail.labels] using passes
  · cases passes

mutual

/-- Only what consumes nothing and does nothing is taken out. -/
theorem Trail.passes_of_taken : ∀ (trail : Trail) (other : Bool), ∀ label ∈ trail.taken other, label.passes = true
  | .done, _, label, member => by simp [Trail.taken] at member
  | .step source _ rest, other, label, member => by
      simp only [Trail.taken] at member
      split at member
      · rename_i stripped
        exact Trail.labels_of_passes (Bool.and_eq_true_iff.mp stripped).2 label member
      · split at member
        · simp at member
        · exact rest.passes_of_taken other label member
  | .gap _ _, _, label, member => by simp [Trail.taken] at member
  | .block frame start exit ways rest, other, label, member => by
      simp only [Trail.taken, List.mem_append] at member
      rcases member with inner | later
      · exact ways.passes_of_taken _ label inner
      · split at later
        · exact rest.passes_of_taken other label later
        · simp at later

theorem Ways.passes_of_taken : ∀ (ways : Ways) (other : Bool), ∀ label ∈ ways.taken other, label.passes = true
  | .none, _, label, member => by simp [Ways.taken] at member
  | .more way rest, other, label, member => by
      rcases List.mem_append.mp member with first | later
      · exact way.passes_of_taken other label first
      · exact rest.passes_of_taken other label later

end

/-- What the passes over the alternatives of a block take out that is more than a way on. -/
def blockLosses (suffix : Option Suffix) (trails : List Trail) : List Label :=
  match suffix, trails with
  | none, [_] => []
  | some ⟨.star, _⟩, trails => marks (trails.flatMap (Trail.taken false))
  | _, trails => marks (trails.flatMap (Trail.taken true))

/-- The labels of what an element comes to that is no block. -/
def Leaf.labels : Leaf → List Label
  | .chain labels => marks labels
  | .broken => []

namespace Plan

variable (plan : Plan) (index : Nat)

def commandLabels : List Command → List Label
  | [] => []
  | first :: rest => marks (plan.commandLabel? index first).toList ++ commandLabels rest

mutual

/-- The labels of an element of the rule with number `index`: what is built for it and for what is inside. -/
def elementLabels : Element → List Label
  | ⟨.block ⟨alternatives, _⟩, _⟩ => alternativeLabels alternatives
  | element => ((plan.leaf? index element).map Leaf.labels).getD []

def listLabels : List Element → List Label
  | [] => []
  | first :: rest => elementLabels first ++ listLabels rest

/-- The labels of alternatives with their commands. -/
def alternativeLabels : List Alternative → List Label
  | [] => []
  | ⟨elements, written⟩ :: rest =>
      (listLabels elements ++ plan.commandLabels index written) ++ alternativeLabels rest

end

mutual

/-- What is taken out of an element again: what the passes over a block take out of its alternatives. -/
def elementLosses : Element → List Label
  | ⟨.block ⟨alternatives, suffix⟩, _⟩ =>
      alternativeLosses alternatives ++ blockLosses suffix ((plan.sketchAlternatives index alternatives).getD [])
  | _ => []

def listLosses : List Element → List Label
  | [] => []
  | first :: rest => elementLosses first ++ listLosses rest

def alternativeLosses : List Alternative → List Label
  | [] => []
  | ⟨elements, _⟩ :: rest => listLosses elements ++ alternativeLosses rest

end

/-- What is taken out of the body of a rule. -/
def bodyLosses (body : Block) : List Label :=
  plan.alternativeLosses index body.alternatives ++
    blockLosses body.suffix ((plan.sketchAlternatives index body.alternatives).getD [])

end Plan

section Sketches

variable {plan : Plan} {index : Nat}

/-- The end of a single transition, which is left out, only leads on. -/
theorem Trail.marks_join {trail : Trail} (opens : trail.IsOpen) (next : Trail) :
    marks (trail.join next).labels = marks trail.labels ++ marks next.labels := by
  unfold Trail.join
  split
  · rename_i source label single
    obtain ⟨target, rfl⟩ := Trail.single?_of_isOpen opens single
    simp only [Trail.labels]
    rw [marks_cons, marks_cons label [.epsilon], marks_epsilon, List.append_nil]
  · rw [Trail.labels_append, marks_append]

theorem Trail.marks_joinAll : ∀ {trails : List Trail}, (∀ trail ∈ trails, trail.IsOpen) →
    marks (Trail.joinAll trails).labels = trails.flatMap fun trail => marks trail.labels
  | [], _ => rfl
  | [_], _ => by simp [Trail.joinAll]
  | trail :: next :: rest, opens => by
      rw [List.forall_mem_cons] at opens
      simp only [Trail.joinAll, Trail.marks_join opens.1, Trail.marks_joinAll opens.2, List.flatMap_cons]

theorem Trail.marks_chain (labels : List Label) : marks (Trail.chain labels).labels = marks labels := by
  induction labels with
  | nil => rfl
  | cons label labels ih =>
      simp only [Trail.chain, Trail.labels]
      rw [marks_cons, ih, ← marks_cons]

theorem Leaf.marks_trail (leaf : Leaf) : marks leaf.trail.labels = leaf.labels := by
  cases leaf with
  | chain labels => exact Trail.marks_chain labels
  | broken => rfl

theorem Ways.labels_ofList (trails : List Trail) : (Ways.ofList trails).labels = trails.flatMap Trail.labels := by
  induction trails with
  | nil => rfl
  | cons trail trails ih => simp [Ways.ofList, Ways.labels, ih]

theorem taken_ofList (trails : List Trail) (other : Bool) :
    ((trails.map (Trail.strip other)).flatMap Trail.labels ++ trails.flatMap (Trail.taken other)).Perm
      (trails.flatMap Trail.labels) := by
  induction trails with
  | nil => exact .refl _
  | cons trail trails ih => exact perm_gather (trail.labels_taken other) ih

theorem marks_ofList (trails : List Trail) (other : Bool) :
    (marks (Ways.ofList (trails.map (Trail.strip other))).labels ++
      marks (trails.flatMap (Trail.taken other))).Perm (trails.flatMap fun trail => marks trail.labels) := by
  have all := marks_perm (taken_ofList trails other)
  rwa [marks_append, ← Ways.labels_ofList, marks_flatMap Trail.labels] at all

theorem marks_ofBlock {suffix : Option Suffix} {trails : List Trail} {trail : Trail}
    (drawn : Trail.ofBlock suffix trails = some trail) :
    (marks trail.labels ++ blockLosses suffix trails).Perm (trails.flatMap fun trail => marks trail.labels) := by
  cases trails with
  | nil => cases drawn
  | cons first rest =>
      simp only [Trail.ofBlock] at drawn
      split at drawn
      · split at drawn
        · rename_i single
          cases drawn
          obtain rfl : rest = [] := by simpa using single
          simp [blockLosses]
        · rename_i several
          cases drawn
          have losses : blockLosses none (first :: rest) = marks ((first :: rest).flatMap (Trail.taken true)) := by
            cases rest with
            | nil => exact absurd rfl several
            | cons => rfl
          rw [losses]
          simpa only [Trail.labels, List.append_nil] using marks_ofList (first :: rest) true
      all_goals
        cases drawn
        simp only [Trail.labels, List.append_nil]
        exact marks_ofList (first :: rest) _

theorem marks_sketchCommands : ∀ {written : List Command} {trails : List Trail},
    plan.sketchCommands index written = some trails →
    (trails.flatMap fun trail => marks trail.labels) = plan.commandLabels index written
  | [], trails, drawn => by
      cases drawn
      rfl
  | first :: rest, trails, drawn => by
      simp only [Plan.sketchCommands, Option.bind_eq_bind, Option.bind_eq_some_iff,
        Option.map_eq_some_iff] at drawn
      obtain ⟨_, ⟨label, labelled, rfl⟩, more, later, same⟩ := drawn
      cases same
      simp only [List.flatMap_cons, Plan.commandLabels, labelled, Trail.marks_chain, marks_sketchCommands later,
        Option.toList_some]

theorem marks_assembleSketch {trails : List Trail} {written : List Command} {trail : Trail}
    (drawn : plan.assembleSketch index trails written = some trail) (opens : ∀ trail ∈ trails, trail.IsOpen) :
    marks trail.labels = (trails.flatMap fun trail => marks trail.labels) ++ plan.commandLabels index written := by
  have body : marks (if trails.isEmpty then Trail.chain [.epsilon] else Trail.joinAll trails).labels =
      trails.flatMap fun trail => marks trail.labels := by
    split
    · rename_i none
      obtain rfl : trails = [] := by simpa using none
      rfl
    · exact Trail.marks_joinAll opens
  simp only [Plan.assembleSketch] at drawn
  split at drawn
  · rename_i none
    obtain rfl : written = [] := by simpa using none
    cases drawn
    rw [body]
    simp [Plan.commandLabels]
  · obtain ⟨commands, sketched, rfl⟩ := Option.map_eq_some_iff.mp drawn
    rw [Trail.labels_append, marks_append, body, Trail.marks_joinAll (Plan.opens_of_sketched (Plan.sketched_commands sketched)),
      marks_sketchCommands sketched]

mutual

/-- The sketch of an element has the labels of the element, apart from those that are taken out. -/
theorem marks_sketch : ∀ {element : Element} {trail : Trail}, plan.sketch index element = some trail →
    (marks trail.labels ++ plan.elementLosses index element).Perm (plan.elementLabels index element)
  | ⟨.block ⟨alternatives, suffix⟩, _⟩, trail, drawn => by
      simp only [Plan.sketch, Option.bind_eq_bind, Option.bind_eq_some_iff] at drawn
      obtain ⟨trails, sketched, built⟩ := drawn
      have inner := marks_sketchAlternatives sketched
      simp only [Plan.elementLosses, Plan.elementLabels, sketched, Option.getD_some]
      refine List.Perm.trans ?_ (((marks_ofBlock built).append_right _).trans inner)
      rw [List.append_assoc]
      exact List.perm_append_comm.append_left _
  | ⟨.token _, _⟩, _, drawn | ⟨.rule _ _, _⟩, _, drawn | ⟨.literal _, _⟩, _, drawn | ⟨.charSet _, _⟩, _, drawn
  | ⟨.range _ _, _⟩, _, drawn | ⟨.set _ _, _⟩, _, drawn | ⟨.wildcard, _⟩, _, drawn | ⟨.action _ _, _⟩, _, drawn
  | ⟨.predicate _ _ _, _⟩, _, drawn => by
      obtain ⟨leaf, found, rfl⟩ := Option.map_eq_some_iff.mp drawn
      simp only [Plan.elementLabels, Plan.elementLosses, found, Option.map_some, Option.getD_some,
        List.append_nil]
      exact .of_eq leaf.marks_trail

theorem marks_sketchList : ∀ {elements : List Element} {trails : List Trail},
    plan.sketchList index elements = some trails →
    ((trails.flatMap fun trail => marks trail.labels) ++ plan.listLosses index elements).Perm
      (plan.listLabels index elements)
  | [], trails, drawn => by
      cases drawn
      exact .refl _
  | first :: rest, trails, drawn => by
      simp only [Plan.sketchList, Option.bind_eq_bind, Option.bind_eq_some_iff] at drawn
      obtain ⟨trail, sketched, more, later, same⟩ := drawn
      cases same
      exact perm_gather (marks_sketch sketched) (marks_sketchList later)

theorem marks_sketchAlternatives : ∀ {alternatives : List Alternative} {trails : List Trail},
    plan.sketchAlternatives index alternatives = some trails →
    ((trails.flatMap fun trail => marks trail.labels) ++ plan.alternativeLosses index alternatives).Perm
      (plan.alternativeLabels index alternatives)
  | [], trails, drawn => by
      cases drawn
      exact .refl _
  | ⟨elements, written⟩ :: rest, trails, drawn => by
      simp only [Plan.sketchAlternatives, Option.bind_eq_bind, Option.bind_eq_some_iff] at drawn
      obtain ⟨pieces, listed, trail, assembled, more, later, same⟩ := drawn
      cases same
      have shape := marks_assembleSketch assembled (Plan.opens_of_sketched (Plan.sketched_list listed))
      have whole : (marks trail.labels ++ plan.listLosses index elements).Perm
          (plan.listLabels index elements ++ plan.commandLabels index written) := by
        rw [shape, List.append_assoc]
        refine List.Perm.trans (List.perm_append_comm.append_left _) ?_
        rw [← List.append_assoc]
        exact (marks_sketchList listed).append_right _
      exact perm_gather whole (marks_sketchAlternatives later)

end

theorem marks_sketchBody {body : Block} {trail : Trail} (drawn : plan.sketchBody index body = some trail) :
    (marks trail.labels ++ plan.bodyLosses index body).Perm (plan.alternativeLabels index body.alternatives) := by
  simp only [Plan.sketchBody, Option.bind_eq_bind, Option.bind_eq_some_iff] at drawn
  obtain ⟨trails, sketched, built⟩ := drawn
  rw [Plan.bodyLosses, sketched, Option.getD_some]
  refine List.Perm.trans ?_ (((marks_ofBlock built).append_right _).trans (marks_sketchAlternatives sketched))
  rw [List.append_assoc]
  exact List.perm_append_comm.append_left _

end Sketches

theorem RulePart.rule_heaps {starts : Array StateId} {parts : List RulePart} {first : Nat} :
    ∀ entry ∈ RulePart.heaps starts first parts,
      ∃ index < parts.length, entry.2.rule = some (first + index) := by
  intro entry member
  obtain ⟨index, part, found, inside⟩ := RulePart.mem_heaps.mp member
  exact ⟨index, (List.getElem?_eq_some_iff.mp found).1, RulePart.rule_heap entry inside⟩

theorem RulePart.filter_heap (starts : Array StateId) (part : RulePart) (index : Nat) :
    (part.heap starts index).filter (fun entry => entry.2.IsInner (some index)) =
      (part.start, { rule := some index, kind := .ruleStart part.stop part.leftRecursive,
                     transitions := part.body.first?.toList.map .silent }) ::
        part.body.layout starts (some index) (some part.stop) := by
  rw [RulePart.heap, List.filter_cons_of_pos, List.filter_cons_of_neg, List.filter_eq_self.mpr]
  · exact fun entry member => decide_eq_true (part.body.isInner_layout entry member)
  · simp [State.IsInner]
  · simp [State.IsInner]

theorem RulePart.filter_heaps (starts : Array StateId) (parts : List RulePart) {first index : Nat}
    (apart : index < first ∨ first + parts.length ≤ index) :
    (RulePart.heaps starts first parts).filter (fun entry => entry.2.IsInner (some index)) = [] := by
  rw [List.filter_eq_nil_iff]
  intro entry member
  obtain ⟨place, less, same⟩ := RulePart.rule_heaps entry member
  simp only [State.IsInner, same, Option.some.injEq, decide_eq_true_eq, not_and_or]
  exact Or.inl (by omega)

namespace Network

/-- The labels of the transitions of a rule that are more than a way on, apart from what leaves its end. -/
def ruleLabels (network : Network) (index : Nat) : List Label :=
  marks (Heap.labels (network.liveStates.filter fun entry => entry.2.IsInner (some index)))

theorem nodup_liveStates (network : Network) : network.liveStates.Nodup := by
  refine List.Nodup.filterMap ?_ (List.Nodup.of_map Prod.snd (List.nodup_zipIdx_map_snd _))
  rintro ⟨slot, number⟩ ⟨other, place⟩ entry made same
  simp only [Option.mem_def, Option.map_eq_some_iff] at made same
  obtain ⟨state, rfl, rfl⟩ := made
  obtain ⟨found, rfl, equal⟩ := same
  simp only [Prod.mk.injEq] at equal ⊢
  exact ⟨congrArg some equal.2.symm, equal.1.symm⟩

namespace Houses

variable {network : Network} {others : Heap} {parts : List RulePart} {part : RulePart}

theorem liveStates_perm (houses : network.Houses others parts) :
    network.liveStates.Perm (others ++ RulePart.heaps network.ruleStarts 0 parts) := by
  refine (List.perm_ext_iff_of_nodup network.nodup_liveStates (.of_map Prod.fst houses.stands.unique)).mpr ?_
  rintro ⟨id, state⟩
  rw [network.mem_liveStates, houses.stands.exact id state]

theorem filter_others (houses : network.Houses others parts) (index : Nat) :
    others.filter (fun entry => entry.2.IsInner (some index)) = [] := by
  rw [List.filter_eq_nil_iff]
  intro entry member
  simp [State.IsInner, (houses.neutral entry member).rule]

theorem ruleLabels_perm (houses : network.Houses others parts) {index : Nat} (found : parts[index]? = some part) :
    (network.ruleLabels index).Perm (marks part.body.labels) := by
  obtain ⟨bound, rfl⟩ := List.getElem?_eq_some_iff.mp found
  have count : (parts.take index).length = index := List.length_take_of_le (Nat.le_of_lt bound)
  have shape : parts.take index ++ parts[index] :: parts.drop (index + 1) = parts := by
    rw [← List.drop_eq_getElem_cons bound, List.take_append_drop]
  have whole := houses.liveStates_perm
  rw [← shape] at whole
  have picked := (whole.trans (RulePart.split network.ruleStarts others _ _ _)).filter fun entry =>
    decide (entry.2.IsInner (some index))
  rw [count] at picked
  simp only [List.filter_append, RulePart.filter_heap, houses.filter_others index,
    RulePart.filter_heaps network.ruleStarts (parts.take index) (Or.inr (by omega : 0 + _ ≤ index)),
    RulePart.filter_heaps network.ruleStarts (parts.drop (index + 1)) (Or.inl (Nat.lt_succ_self index)),
    List.append_nil] at picked
  refine (marks_perm (picked.flatMap_right _)).trans (List.Perm.of_eq ?_)
  rw [← parts[index].body.marks_layout network.ruleStarts (some index) parts[index].stop]
  simp only [Heap.labels, List.flatMap_cons, marks_append, marks_silent, List.nil_append]

end Houses

end Network

def Label.isPredicate : Label → Bool
  | .predicate _ _ _ | .precedence _ => true
  | _ => false

section Losses

variable {plan : Plan} {index : Nat}

theorem isPredicate_of_blockLosses (suffix : Option Suffix) (trails : List Trail) :
    ∀ label ∈ blockLosses suffix trails, label.isPredicate = true := by
  have taken : ∀ other, ∀ label ∈ marks (trails.flatMap (Trail.taken other)), label.isPredicate = true := by
    intro other label member
    simp only [marks, List.mem_filter, List.mem_map, List.mem_flatMap, decide_eq_true_eq] at member
    obtain ⟨⟨original, ⟨trail, _, inside⟩, rfl⟩, more⟩ := member
    have passes := trail.passes_of_taken other original inside
    cases original <;> simp_all [Label.passes, Label.erase, Label.isPredicate]
  unfold blockLosses
  split
  · simp
  · exact taken false
  · exact taken true

mutual

theorem isPredicate_of_elementLosses : ∀ (element : Element), ∀ label ∈ plan.elementLosses index element,
    label.isPredicate = true
  | ⟨.block ⟨alternatives, suffix⟩, _⟩, label, member => by
      rcases List.mem_append.mp member with inner | here
      · exact isPredicate_of_alternativeLosses alternatives label inner
      · exact isPredicate_of_blockLosses suffix _ label here
  | ⟨.token _, _⟩, _, member | ⟨.rule _ _, _⟩, _, member | ⟨.literal _, _⟩, _, member
  | ⟨.charSet _, _⟩, _, member | ⟨.range _ _, _⟩, _, member | ⟨.set _ _, _⟩, _, member
  | ⟨.wildcard, _⟩, _, member | ⟨.action _ _, _⟩, _, member | ⟨.predicate _ _ _, _⟩, _, member => by
      simp [Plan.elementLosses] at member

theorem isPredicate_of_listLosses : ∀ (elements : List Element), ∀ label ∈ plan.listLosses index elements,
    label.isPredicate = true
  | [], _, member => by simp [Plan.listLosses] at member
  | first :: rest, label, member => by
      rcases List.mem_append.mp member with here | later
      · exact isPredicate_of_elementLosses first label here
      · exact isPredicate_of_listLosses rest label later

theorem isPredicate_of_alternativeLosses : ∀ (alternatives : List Alternative),
    ∀ label ∈ plan.alternativeLosses index alternatives, label.isPredicate = true
  | [], _, member => by simp [Plan.alternativeLosses] at member
  | ⟨elements, _⟩ :: rest, label, member => by
      rcases List.mem_append.mp member with here | later
      · exact isPredicate_of_listLosses elements label here
      · exact isPredicate_of_alternativeLosses rest label later

end

end Losses

namespace Plan

/-- The labels of the elements and commands of a rule. -/
def ruleLabels (plan : Plan) (index : Nat) (rule : Rule) : List Label :=
  plan.alternativeLabels index rule.alternatives

section Origins

variable {plan : Plan} {index : Nat} {label : Label}

theorem mem_commandLabels : ∀ {written : List Command}, label ∈ plan.commandLabels index written →
    ∃ command, label ∈ marks (plan.commandLabel? index command).toList
  | first :: rest, member => by
      rcases List.mem_append.mp member with here | later
      · exact ⟨first, here⟩
      · exact mem_commandLabels later

theorem mem_leafLabels {element : Element} (member : label ∈ ((plan.leaf? index element).map Leaf.labels).getD []) :
    ∃ leaf, plan.leaf? index element = some leaf ∧ label ∈ leaf.labels := by
  cases found : plan.leaf? index element with
  | none => simp [found] at member
  | some leaf => exact ⟨leaf, rfl, by simpa [found] using member⟩

-- A label comes from an element that is no block, or from a command.
mutual

theorem mem_elementLabels : ∀ {element : Element}, label ∈ plan.elementLabels index element →
    (∃ inner ∈ element.parts, ∃ leaf, plan.leaf? index inner = some leaf ∧ label ∈ leaf.labels) ∨
      ∃ command, label ∈ marks (plan.commandLabel? index command).toList
  | ⟨.block ⟨alternatives, _⟩, _⟩, member => by
      rw [elementLabels] at member
      refine (mem_alternativeLabels member).imp_left ?_
      rintro ⟨inner, inside, origin⟩
      exact ⟨inner, List.mem_append_left _ inside, origin⟩
  | ⟨.token _, _⟩, member | ⟨.rule _ _, _⟩, member | ⟨.literal _, _⟩, member | ⟨.charSet _, _⟩, member
  | ⟨.range _ _, _⟩, member | ⟨.set _ _, _⟩, member | ⟨.wildcard, _⟩, member | ⟨.action _ _, _⟩, member
  | ⟨.predicate _ _ _, _⟩, member => by
      rw [elementLabels] at member
      · exact Or.inl ⟨_, List.mem_singleton_self _, mem_leafLabels member⟩
      · simp

theorem mem_listLabels : ∀ {elements : List Element}, label ∈ plan.listLabels index elements →
    (∃ inner ∈ listParts elements, ∃ leaf, plan.leaf? index inner = some leaf ∧ label ∈ leaf.labels) ∨
      ∃ command, label ∈ marks (plan.commandLabel? index command).toList
  | first :: rest, member => by
      rcases List.mem_append.mp member with here | later
      · refine (mem_elementLabels here).imp_left ?_
        rintro ⟨inner, inside, origin⟩
        exact ⟨inner, List.mem_append_left _ inside, origin⟩
      · refine (mem_listLabels later).imp_left ?_
        rintro ⟨inner, inside, origin⟩
        exact ⟨inner, List.mem_append_right _ inside, origin⟩

theorem mem_alternativeLabels : ∀ {alternatives : List Alternative},
    label ∈ plan.alternativeLabels index alternatives →
    (∃ inner ∈ alternativeParts alternatives, ∃ leaf, plan.leaf? index inner = some leaf ∧ label ∈ leaf.labels) ∨
      ∃ command, label ∈ marks (plan.commandLabel? index command).toList
  | ⟨elements, written⟩ :: rest, member => by
      rcases List.mem_append.mp member with here | later
      · rcases List.mem_append.mp here with matched | run
        · refine (mem_listLabels matched).imp_left ?_
          rintro ⟨inner, inside, origin⟩
          exact ⟨inner, List.mem_append_left _ inside, origin⟩
        · exact Or.inr (mem_commandLabels run)
      · refine (mem_alternativeLabels later).imp_left ?_
        rintro ⟨inner, inside, origin⟩
        exact ⟨inner, List.mem_append_right _ inside, origin⟩

end

end Origins

/-- What is taken out of a rule again. -/
def ruleLosses (plan : Plan) (index : Nat) (rule : Rule) : List Label :=
  plan.bodyLosses index rule.body

/-- A rule has a transition for each label of its elements and commands, apart from what is taken out. -/
theorem Makes.ruleLabels_perm {plan : Plan} {network : Network} {others : Heap} {parts : List RulePart}
    (makes : plan.Makes network others parts) {index : Nat} {rule : Rule}
    (listed : plan.grammar.rules[index]? = some rule) :
    (network.ruleLabels index ++ plan.ruleLosses index rule).Perm (plan.ruleLabels index rule) := by
  obtain ⟨part, found, draws⟩ := makes.part_of_rule listed
  have drawn := marks_sketchBody draws.body
  rw [Trail.labels_erase, marks_map_erase] at drawn
  exact ((makes.houses.ruleLabels_perm found).append_right _).trans drawn

/-- A transition before the end of a rule only leads on, or has a label of this rule. -/
theorem Makes.mem_ruleLabels {plan : Plan} {network : Network} {others : Heap} {parts : List RulePart}
    (makes : plan.Makes network others parts) {id : StateId} {state : State} (found : network.state? id = some state)
    (inner : state.kind ≠ .ruleStop) {transition : Transition} (leaves : transition ∈ state.transitions) :
    transition.label.erase = .epsilon ∨ ∃ index rule, state.rule = some index ∧
      plan.grammar.rules[index]? = some rule ∧ transition.label.erase ∈ plan.ruleLabels index rule := by
  by_cases silent : transition.label.erase = .epsilon
  · exact Or.inl silent
  rcases makes.houses.mem_of_state? found with outside | ⟨index, part, known, inside⟩
  · obtain ⟨start, _, rfl⟩ := (makes.houses.neutral _ outside).transitions transition leaves
    exact Or.inl rfl
  obtain ⟨rule, listed, _⟩ := makes.draws_part known
  have own : state.IsInner (some index) := ⟨RulePart.rule_heap _ inside, inner⟩
  have member : transition.label.erase ∈ network.ruleLabels index := by
    refine List.mem_filter.mpr ⟨List.mem_map_of_mem (List.mem_flatMap.mpr ⟨(id, state), ?_, ?_⟩), by simpa using silent⟩
    · exact List.mem_filter.mpr ⟨network.mem_liveStates.mpr found, by simpa using own⟩
    · exact List.mem_map_of_mem leaves
  exact Or.inr ⟨index, rule, own.1, listed, (makes.ruleLabels_perm listed).subset (List.mem_append_left _ member)⟩

theorem isPredicate_of_ruleLosses {plan : Plan} {index : Nat} {rule : Rule} :
    ∀ label ∈ plan.ruleLosses index rule, label.isPredicate = true := by
  intro label member
  rcases List.mem_append.mp member with inner | here
  · exact isPredicate_of_alternativeLosses rule.body.alternatives label inner
  · exact isPredicate_of_blockLosses rule.body.suffix _ label here

/-- In a network that was built nothing is lost but predicates that a pass over the alternatives of a block took
out, and every rule has exactly the transitions of its elements and commands when no pass takes out a
predicate, and only then. -/
theorem run_labels (plan : Plan) (journal : Journal) :
    match plan.run journal with
    | .ok network _ =>
        (∀ index rule, plan.grammar.rules[index]? = some rule →
          (network.ruleLabels index ++ plan.ruleLosses index rule).Perm (plan.ruleLabels index rule) ∧
            ∀ label ∈ plan.ruleLosses index rule, label.isPredicate = true) ∧
        ((∀ index rule, plan.grammar.rules[index]? = some rule →
            (network.ruleLabels index).Perm (plan.ruleLabels index rule)) ↔
          ∀ index rule, plan.grammar.rules[index]? = some rule → plan.ruleLosses index rule = [])
    | .error _ _ => True := by
  split
  · rename_i network after ends
    obtain ⟨others, parts, makes, _⟩ := completes_of_run ends
    refine ⟨fun index rule listed => ⟨makes.ruleLabels_perm listed, isPredicate_of_ruleLosses⟩, ?_, ?_⟩
    · intro kept index rule listed
      have lengths := (makes.ruleLabels_perm listed).length_eq
      rw [List.length_append, (kept index rule listed).length_eq] at lengths
      exact List.length_eq_zero_iff.mp (by omega)
    · intro none index rule listed
      have whole := makes.ruleLabels_perm listed
      rwa [none index rule listed, List.append_nil] at whole
  · trivial

end Plan

/-- `a : (B {p}? | C) | D ;`, where the predicate stands in front of the end of a block inside another. -/
def nestedPredicate : Draft where
  kind := .parser
  name := "P"
  rules := [{
    name := "a"
    alternatives := [
      { elements := [⟨.block { alternatives := [
        { elements := [⟨.token "B", none⟩, ⟨.predicate "p" 0 none, none⟩] },
        { elements := [⟨.token "C", none⟩] }] }, none⟩] },
      { elements := [⟨.token "D", none⟩] }] }]

-- The pass over the body takes out the transition between the token and the end of the inner block.
set_option maxRecDepth 100000 in
theorem nestedPredicate_lost :
    (nestedPredicate.network?.map fun built =>
      (built.1.rules.toList.map ((Plan.ofGrammar built.1).ruleLabels 0), built.2.1.ruleLabels 0)) =
    some ([[.atom 1, .predicate 0 0 false, .atom 2, .atom 3]], [.atom 1, .atom 2, .atom 3]) := by
  decide +kernel

end GrammarNetwork
