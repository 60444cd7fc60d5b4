import Mathlib.Data.List.Forall2
import GrammarNetwork.Construction.Element
import GrammarNetwork.Proofs.Joining

/-! The blocks of a trail, and the blocks of a grammar with the pieces that their alternatives were built as. A block
of the grammar that branches has a joint of its own in the trail. -/

namespace GrammarNetwork

/-- What stands around the alternatives of a block of a trail, and where these begin. -/
structure Joint where
  frame : Frame
  start : StateId
  exit : StateId
  entries : List StateId

namespace Joint

/-- The states of the joint, where the block is followed by `next`. -/
def states (rule : Option Nat) (next : Option StateId) (joint : Joint) : Heap :=
  joint.frame.states rule joint.start joint.exit joint.entries next

def ids (joint : Joint) : List StateId :=
  joint.start :: joint.exit :: joint.frame.loopIds

end Joint

mutual

/-- The joints of a trail, inner ones before the one around them. -/
def Trail.joints : Trail → List Joint
  | .done => []
  | .step _ _ rest => rest.joints
  | .gap _ rest => rest.joints
  | .block frame start exit ways rest =>
      ways.joints ++ (⟨frame, start, exit, ways.entries exit⟩ :: rest.joints)

def Ways.joints : Ways → List Joint
  | .none => []
  | .more way rest => way.joints ++ rest.joints

end

mutual

/-- Stripping takes no joint away and moves none. -/
theorem Trail.joints_strip (other : Bool) : ∀ (trail : Trail), (trail.strip other).joints = trail.joints
  | .done => rfl
  | .step source label rest => by
      rw [Trail.strip]
      split
      · rename_i strips
        obtain ⟨_, _, rfl, _⟩ := Trail.passes_eq_true.mp (Bool.and_eq_true_iff.mp strips).2
        rfl
      · split
        · rfl
        · exact rest.joints_strip other
  | .gap source rest => rfl
  | .block frame start exit ways rest => by
      rw [Trail.strip, Trail.joints, ways.joints_strip, ways.entries_strip]
      split
      · rw [rest.joints_strip, Trail.joints]
      · rfl

theorem Ways.joints_strip (other : Bool) : ∀ (ways : Ways), (ways.strip other).joints = ways.joints
  | .none => rfl
  | .more way rest => by
      rw [Ways.strip, Ways.joints, way.joints_strip, rest.joints_strip, Ways.joints]

end

mutual

theorem Trail.length_joints_erase : ∀ (trail : Trail), trail.erase.joints.length = trail.joints.length
  | .done => rfl
  | .step _ _ rest => rest.length_joints_erase
  | .gap _ rest => rest.length_joints_erase
  | .block _ _ _ ways rest => by
      simp [Trail.erase, Trail.joints, ways.length_joints_erase, rest.length_joints_erase]

theorem Ways.length_joints_erase : ∀ (ways : Ways), ways.erase.joints.length = ways.joints.length
  | .none => rfl
  | .more way rest => by simp [Ways.erase, Ways.joints, way.length_joints_erase, rest.length_joints_erase]

end

theorem Trail.joints_append (next : Trail) : ∀ (trail : Trail),
    (trail.append next).joints = trail.joints ++ next.joints
  | .done => rfl
  | .step _ _ rest => by simp [append, joints, joints_append next rest]
  | .gap _ rest => by simp [append, joints, joints_append next rest]
  | .block _ _ _ _ rest => by simp [append, joints, joints_append next rest]

theorem Trail.joints_join (trail next : Trail) : (trail.join next).joints = trail.joints ++ next.joints := by
  unfold join
  split
  · rename_i source label single
    obtain ⟨target, last, rfl⟩ := single?_eq_some.mp single
    rfl
  · exact joints_append next trail

theorem Trail.joints_joinAll : ∀ (trails : List Trail), (joinAll trails).joints = trails.flatMap Trail.joints
  | [] => rfl
  | [trail] => by simp [joinAll]
  | trail :: next :: rest => by
      rw [joinAll, joints_join, joints_joinAll (next :: rest), ← List.flatMap_cons]

mutual

/-- A state of a trail is on its own or belongs to a joint. -/
theorem Trail.mem_layout {starts : Array StateId} {rule : Option Nat} {entry : StateId × State} :
    ∀ (trail : Trail) {next : Option StateId}, entry ∈ trail.layout starts rule next →
    (∃ transitions : List Transition, entry.2 = { rule, kind := .basic, transitions } ∧ transitions.length ≤ 1) ∨
      ∃ joint ∈ trail.joints, ∃ next, entry ∈ joint.states rule next
  | .step source label rest, next, member => by
      rcases List.mem_cons.mp member with rfl | behind
      · exact Or.inl ⟨_, rfl, by cases rest.enter next <;> simp⟩
      · exact rest.mem_layout behind
  | .gap source rest, next, member => by
      rcases List.mem_cons.mp member with rfl | behind
      · exact Or.inl ⟨[], rfl, Nat.zero_le _⟩
      · exact rest.mem_layout behind
  | .block frame start exit ways rest, next, member => by
      simp only [Trail.layout, List.mem_append] at member
      rcases member with here | inside | behind
      · exact Or.inr ⟨_, List.mem_append_right _ List.mem_cons_self, _, here⟩
      · refine (ways.mem_layout inside).imp_right ?_
        rintro ⟨joint, listed, found⟩
        exact ⟨joint, List.mem_append_left _ listed, found⟩
      · refine (rest.mem_layout behind).imp_right ?_
        rintro ⟨joint, listed, found⟩
        exact ⟨joint, List.mem_append_right _ (List.mem_cons_of_mem _ listed), found⟩

theorem Ways.mem_layout {starts : Array StateId} {rule : Option Nat} {entry : StateId × State} :
    ∀ (ways : Ways) {exit : StateId}, entry ∈ ways.layout starts rule exit →
    (∃ transitions : List Transition, entry.2 = { rule, kind := .basic, transitions } ∧ transitions.length ≤ 1) ∨
      ∃ joint ∈ ways.joints, ∃ next, entry ∈ joint.states rule next
  | .more way rest, exit, member => by
      rcases List.mem_append.mp member with first | later
      · refine (way.mem_layout first).imp_right ?_
        rintro ⟨joint, listed, found⟩
        exact ⟨joint, List.mem_append_left _ listed, found⟩
      · refine (rest.mem_layout later).imp_right ?_
        rintro ⟨joint, listed, found⟩
        exact ⟨joint, List.mem_append_right _ listed, found⟩

end

mutual

theorem Trail.count_joints (id : StateId) : ∀ (trail : Trail),
    (trail.joints.flatMap Joint.ids).count id ≤ trail.ids.count id
  | .done => Nat.le_refl _
  | .step source _ rest => Nat.le_trans (rest.count_joints id) List.count_le_count_cons
  | .gap source rest => Nat.le_trans (rest.count_joints id) List.count_le_count_cons
  | .block frame start exit ways rest => by
      have within := ways.count_joints id
      have behind := rest.count_joints id
      simp only [Trail.joints, Trail.ids, Joint.ids, List.flatMap_append, List.flatMap_cons, List.count_append]
      omega

theorem Ways.count_joints (id : StateId) : ∀ (ways : Ways),
    (ways.joints.flatMap Joint.ids).count id ≤ ways.ids.count id
  | .none => Nat.le_refl _
  | .more way rest => by
      have first := way.count_joints id
      have later := rest.count_joints id
      simp only [Ways.joints, Ways.ids, List.flatMap_append, List.count_append]
      omega

end

/-- A block of a grammar with the pieces that its alternatives were built as. -/
structure Assembly where
  body : Block
  pieces : List Handle

/-- Whether there is anything to choose in the block. -/
def Block.branches (body : Block) : Bool :=
  body.suffix.isSome || decide (2 ≤ body.alternatives.length)

/-- The blocks with something to choose in them. -/
def Assembly.branching (assemblies : List Assembly) : List Assembly :=
  assemblies.filter fun assembly => assembly.body.branches

/-- What stands around alternatives with this suffix, without numbers. -/
def Frame.around (suffix : Option Suffix) (several : Bool) : Frame :=
  let decision := if several then some 0 else none
  match suffix with
  | none => .plain 0
  | some ⟨.optional, greedy⟩ => .optional 0 greedy
  | some ⟨.star, greedy⟩ => .star decision greedy 0 0 0 0
  | some ⟨.plus, greedy⟩ => .plus decision greedy 0 0 0

/-- The joint is that of the block: it begins with the pieces of all alternatives in their order. -/
structure Joint.Frames (joint : Joint) (assembly : Assembly) : Prop where
  frame : joint.frame.erase = Frame.around assembly.body.suffix (decide (2 ≤ assembly.body.alternatives.length))
  entries : joint.entries = assembly.pieces.map Handle.left
  count : assembly.pieces.length = assembly.body.alternatives.length
  nonempty : assembly.body.alternatives ≠ []

/-- The joints are those of the blocks that branch, one after the other. -/
def Framed (joints : List Joint) (assemblies : List Assembly) : Prop :=
  List.Forall₂ Joint.Frames joints (Assembly.branching assemblies)

theorem Framed.append {first second : List Joint} {left right : List Assembly} (front : Framed first left)
    (back : Framed second right) : Framed (first ++ second) (left ++ right) := by
  rw [Framed, Assembly.branching, List.filter_append]
  exact List.rel_append front back

namespace Build

variable {α : Type} {step : Build α} {before later : Construction} {value : α}
  {good : α → Construction → Prop} {bad : Failure → Prop}

/-- What a step leaves behind. -/
def after (step : Build α) (before : Construction) : Construction :=
  match step before with
  | .ok _ later => later
  | .error _ later => later

/-- The pieces that a step gives, none if it fails. -/
def pieces (step : Build (List Handle)) (before : Construction) : List Handle :=
  match step before with
  | .ok pieces _ => pieces
  | .error _ _ => []

theorem meets_of_ok (ends : step before = .ok value later) : Meets step before good bad ↔ good value later := by
  rw [Meets, ends]

theorem after_of_ok (ends : step before = .ok value later) : after step before = later := by
  rw [after, ends]

theorem after_bind {β : Type} {next : α → Build β} (ends : step before = .ok value later) :
    after (step >>= next) before = after (next value) later := by
  simp only [after, bind, EStateM.bind, ends]

theorem pieces_of_ok {step : Build (List Handle)} {value : List Handle} (ends : step before = .ok value later) :
    pieces step before = value := by
  rw [pieces, ends]

/-- What a step is known to do it does in the run that leads to its end. -/
theorem Meets.run (meets : Meets step before good bad) :
    Meets step before (fun value later => step before = .ok value later ∧ good value later) bad := by
  unfold Meets at meets ⊢
  split
  · rename_i value later ends
    rw [ends] at meets
    exact ⟨ends, meets⟩
  · rename_i failure later ends
    rwa [ends] at meets

theorem after_eq (meets : Meets step before (fun _ reached => reached = later) fun _ => False) :
    after step before = later := by
  unfold Meets at meets
  unfold after
  split <;> simp_all

mutual

/-- The blocks of an element that is built from `before` on, each after those inside it. -/
def elementAssemblies (plan : Plan) (site : Site) (before : Construction) : Element → List Assembly
  | ⟨.block ⟨alternatives, suffix⟩, _⟩ =>
      alternativeAssemblies plan site 0 before alternatives ++
        [⟨⟨alternatives, suffix⟩, pieces (alternativeList plan site 0 alternatives) before⟩]
  | _ => []

def listAssemblies (plan : Plan) (site : Site) (alternative : Nat) (number : Nat) (before : Construction) :
    List Element → List Assembly
  | [] => []
  | first :: rest =>
      elementAssemblies plan (site.child alternative number) before first ++
        listAssemblies plan site alternative (number + 1)
          (after (elementList plan site alternative number [first]) before) rest

def alternativeAssemblies (plan : Plan) (site : Site) (number : Nat) (before : Construction) :
    List Alternative → List Assembly
  | [] => []
  | ⟨elements, written⟩ :: rest =>
      listAssemblies plan site number 0 before elements ++
        alternativeAssemblies plan site (number + 1) (after (alternative plan site number ⟨elements, written⟩) before)
          rest

end

/-- The blocks of the body of a rule, and the body last. -/
def bodyAssemblies (plan : Plan) (site : Site) (before : Construction) (body : Block) : List Assembly :=
  alternativeAssemblies plan site 0 before body.alternatives ++
    [⟨body, pieces (alternativeList plan site 0 body.alternatives) before⟩]

/-- The blocks of a rule. -/
def entryAssemblies (plan : Plan) (before : Construction) (entry : Rule × Nat) : List Assembly :=
  bodyAssemblies plan ⟨entry.2, []⟩ (after (do note (.ruleStarted entry.1.name); setRule entry.2) before) entry.1.body

/-- The blocks of rules that are built one after the other. -/
def ruleAssemblies (plan : Plan) (before : Construction) : List (Rule × Nat) → List Assembly
  | [] => []
  | entry :: rest =>
      entryAssemblies plan before entry ++ ruleAssemblies plan (after (wholeRule plan entry.1 entry.2) before) rest

end Build

end GrammarNetwork
