import GrammarNetwork.Construction.Element
import GrammarNetwork.Proofs.Idling

/-! Sketches: the trails that the syntax tree of a grammar asks for, without numbers for states and decisions, and why
there are none for some elements. -/

namespace GrammarNetwork

theorem Trail.joints_chain (labels : List Label) : (Trail.chain labels).joints = [] := by
  induction labels with
  | nil => rfl
  | cons _ _ ih => exact ih

theorem Leaf.joints_trail (leaf : Leaf) : leaf.trail.joints = [] := by
  cases leaf with
  | chain labels => exact Trail.joints_chain labels
  | broken => rfl

theorem Trail.isOpen_chain : ∀ (labels : List Label), (Trail.chain labels).IsOpen
  | [] => Or.inl ⟨rfl, rfl⟩
  | _ :: rest => Or.inr (Trail.isOpen_chain rest)

theorem Trail.isOpen_joinAll : ∀ {trails : List Trail}, (∀ trail ∈ trails, trail.IsOpen) → trails ≠ [] →
    (Trail.joinAll trails).IsOpen
  | [], _, nonempty => absurd rfl nonempty
  | [trail], opens, _ => opens trail (List.mem_singleton.mpr rfl)
  | trail :: _ :: _, opens, _ =>
      (Trail.isOpen_joinAll (List.forall_mem_cons.mp opens).2 (List.cons_ne_nil _ _)).join trail

theorem Trail.isOpen_ofBlock {suffix : Option Suffix} {trails : List Trail} {trail : Trail}
    (drawn : Trail.ofBlock suffix trails = some trail) (opens : ∀ trail ∈ trails, trail.IsOpen) :
    trail.IsOpen := by
  cases trails with
  | nil => cases drawn
  | cons first rest =>
      simp only [Trail.ofBlock] at drawn
      split at drawn
      · split at drawn
        · cases drawn
          exact opens _ (List.mem_cons_self ..)
        · cases drawn
          exact Or.inl rfl
      all_goals
        cases drawn
        exact Or.inl rfl

namespace Plan

/-- The trails of commands, without numbers. -/
def sketchCommands (plan : Plan) (index : Nat) : List Command → Option (List Trail)
  | [] => some []
  | first :: rest => do
      let trail ← (plan.commandLabel? index first).map fun label => Trail.chain [label]
      let trails ← plan.sketchCommands index rest
      return trail :: trails

/-- The trail of an alternative out of the trails of its elements, with its commands behind them. -/
def assembleSketch (plan : Plan) (index : Nat) (elements : List Trail) (written : List Command) : Option Trail :=
  let body := if elements.isEmpty then Trail.chain [.epsilon] else Trail.joinAll elements
  if written.isEmpty then some body
  else (plan.sketchCommands index written).map fun commands => body.append (Trail.joinAll commands)

mutual

/-- The trail of an element of the rule with number `index`, without numbers. There is none if the element
cannot be built. -/
def sketch (plan : Plan) (index : Nat) : Element → Option Trail
  | ⟨.block ⟨alternatives, suffix⟩, _⟩ => do
      let trails ← plan.sketchAlternatives index alternatives
      Trail.ofBlock suffix trails
  | element => (plan.leaf? index element).map Leaf.trail

def sketchList (plan : Plan) (index : Nat) : List Element → Option (List Trail)
  | [] => some []
  | first :: rest => do
      let trail ← plan.sketch index first
      let trails ← plan.sketchList index rest
      return trail :: trails

def sketchAlternatives (plan : Plan) (index : Nat) : List Alternative → Option (List Trail)
  | [] => some []
  | ⟨elements, written⟩ :: rest => do
      let trails ← plan.sketchList index elements
      let trail ← plan.assembleSketch index trails written
      let others ← plan.sketchAlternatives index rest
      return trail :: others

end

/-- Why a block with these alternatives cannot be built, whatever they are. -/
def blockFaults (alternatives : List Alternative) : List Failure :=
  if alternatives.isEmpty then [.inconsistent .emptyBlock] else []

mutual

/-- Why an element cannot be built: what is wrong with it and with what is inside, in the order of the text.
The items of a set are part of the set. -/
def elementFaults (plan : Plan) : Element → List Failure
  | ⟨.block ⟨alternatives, _⟩, _⟩ => plan.alternativeFaults alternatives ++ blockFaults alternatives
  | element => plan.leafFaults element

def listFaults (plan : Plan) : List Element → List Failure
  | [] => []
  | first :: rest => plan.elementFaults first ++ plan.listFaults rest

def alternativeFaults (plan : Plan) : List Alternative → List Failure
  | [] => []
  | ⟨elements, written⟩ :: rest =>
      (plan.listFaults elements ++ written.flatMap fun _ => plan.commandFaults) ++ plan.alternativeFaults rest

end

/-- Why the body of a rule cannot be built. -/
def bodyFaults (plan : Plan) (body : Block) : List Failure :=
  plan.alternativeFaults body.alternatives ++ blockFaults body.alternatives

/-- The trail of the body of a rule, without numbers. -/
def sketchBody (plan : Plan) (index : Nat) (body : Block) : Option Trail := do
  let trails ← plan.sketchAlternatives index body.alternatives
  Trail.ofBlock body.suffix trails

section Faults

variable {plan : Plan} {index : Nat}

theorem isSome_bind {α β : Type} {first : Option α} {next : α → Option β} {faults more : List Failure}
    (left : first.isSome = faults.isEmpty) (right : ∀ value, first = some value → (next value).isSome = more.isEmpty) :
    (first >>= next).isSome = (faults ++ more).isEmpty := by
  cases first with
  | none =>
      cases faults with
      | nil => cases left
      | cons fault faults => rfl
  | some value =>
      obtain rfl : faults = [] := List.isEmpty_iff.mp left.symm
      exact right value rfl

theorem isSome_sketchCommands (written : List Command) :
    (plan.sketchCommands index written).isSome = (written.flatMap fun _ => plan.commandFaults).isEmpty := by
  induction written with
  | nil => rfl
  | cons first rest ih =>
      rw [List.flatMap_cons]
      refine isSome_bind ?_ fun trail _ => ?_
      · rw [Option.isSome_map, isSome_commandLabel?]
      · rw [← List.append_nil (List.flatMap _ rest)]
        exact isSome_bind ih fun _ _ => rfl

theorem isSome_assembleSketch (trails : List Trail) (written : List Command) :
    (plan.assembleSketch index trails written).isSome = (written.flatMap fun _ => plan.commandFaults).isEmpty := by
  simp only [assembleSketch]
  cases written with
  | nil => rfl
  | cons first rest => simpa using isSome_sketchCommands (first :: rest)

theorem isSome_ofBlock (suffix : Option Suffix) {alternatives : List Alternative} {trails : List Trail}
    (drawn : plan.sketchAlternatives index alternatives = some trails) :
    (Trail.ofBlock suffix trails).isSome = (blockFaults alternatives).isEmpty := by
  cases alternatives with
  | nil =>
      cases drawn
      rfl
  | cons first rest =>
      obtain ⟨elements, written⟩ := first
      simp only [sketchAlternatives, Option.bind_eq_bind, Option.bind_eq_some_iff, Option.pure_def,
        Option.some.injEq] at drawn
      obtain ⟨_, _, trail, _, others, _, rfl⟩ := drawn
      simp only [Trail.ofBlock]
      split
      · split <;> rfl
      all_goals rfl

mutual

/-- There is a sketch of an element when it has no fault. -/
theorem isSome_sketch : ∀ (element : Element), (plan.sketch index element).isSome = (plan.elementFaults element).isEmpty
  | ⟨.block ⟨alternatives, suffix⟩, _⟩ =>
      isSome_bind (isSome_sketchAlternatives alternatives) fun _ drawn => isSome_ofBlock suffix drawn
  | ⟨.token name, position⟩ => (Option.isSome_map ..).trans (isSome_leaf? ⟨.token name, position⟩ (by simp))
  | ⟨.rule name precedence, position⟩ =>
      (Option.isSome_map ..).trans (isSome_leaf? ⟨.rule name precedence, position⟩ (by simp))
  | ⟨.literal text, position⟩ => (Option.isSome_map ..).trans (isSome_leaf? ⟨.literal text, position⟩ (by simp))
  | ⟨.charSet text, position⟩ => (Option.isSome_map ..).trans (isSome_leaf? ⟨.charSet text, position⟩ (by simp))
  | ⟨.range first last, position⟩ =>
      (Option.isSome_map ..).trans (isSome_leaf? ⟨.range first last, position⟩ (by simp))
  | ⟨.set items inverted, position⟩ =>
      (Option.isSome_map ..).trans (isSome_leaf? ⟨.set items inverted, position⟩ (by simp))
  | ⟨.wildcard, position⟩ => (Option.isSome_map ..).trans (isSome_leaf? ⟨.wildcard, position⟩ (by simp))
  | ⟨.action code number, position⟩ =>
      (Option.isSome_map ..).trans (isSome_leaf? ⟨.action code number, position⟩ (by simp))
  | ⟨.predicate code number precedence, position⟩ =>
      (Option.isSome_map ..).trans (isSome_leaf? ⟨.predicate code number precedence, position⟩ (by simp))

theorem isSome_sketchList : ∀ (elements : List Element),
    (plan.sketchList index elements).isSome = (plan.listFaults elements).isEmpty
  | [] => rfl
  | first :: rest => by
      refine isSome_bind (isSome_sketch first) fun _ _ => ?_
      rw [← List.append_nil (plan.listFaults rest)]
      exact isSome_bind (isSome_sketchList rest) fun _ _ => rfl

theorem isSome_sketchAlternatives : ∀ (alternatives : List Alternative),
    (plan.sketchAlternatives index alternatives).isSome = (plan.alternativeFaults alternatives).isEmpty
  | [] => rfl
  | ⟨elements, written⟩ :: rest => by
      rw [alternativeFaults, List.append_assoc]
      refine isSome_bind (isSome_sketchList elements) fun trails _ => ?_
      refine isSome_bind (isSome_assembleSketch trails written) fun _ _ => ?_
      rw [← List.append_nil (plan.alternativeFaults rest)]
      exact isSome_bind (isSome_sketchAlternatives rest) fun _ _ => rfl

end

theorem isSome_sketchBody (body : Block) : (plan.sketchBody index body).isSome = (plan.bodyFaults body).isEmpty :=
  isSome_bind (isSome_sketchAlternatives body.alternatives) fun _ drawn => isSome_ofBlock body.suffix drawn

end Faults

theorem length_sketchAlternatives {plan : Plan} {index : Nat} : ∀ {alternatives : List Alternative}
    {trails : List Trail}, plan.sketchAlternatives index alternatives = some trails →
    trails.length = alternatives.length
  | [], _, drawn => by
      cases drawn
      rfl
  | ⟨elements, written⟩ :: rest, _, drawn => by
      simp only [sketchAlternatives, Option.bind_eq_bind, Option.bind_eq_some_iff, Option.pure_def,
        Option.some.injEq] at drawn
      obtain ⟨_, _, _, _, others, later, rfl⟩ := drawn
      rw [List.length_cons, length_sketchAlternatives later, List.length_cons]

/-- What the sketches of a plan are like: there is a state in them and in each of their alternatives, they can be led
on, and those for a parser have no gaps. -/
structure Sketched (plan : Plan) (trail : Trail) : Prop where
  solid : trail.Solid
  opens : trail.IsOpen
  gapless : plan.kind = .parser → trail.gaps = 0

section Sketched

variable {plan : Plan} {index : Nat}

theorem sketched_chain (labels : List Label) : plan.Sketched (Trail.chain labels) := by
  refine ⟨⟨by cases labels <;> simp [Trail.chain], ?_⟩, Trail.isOpen_chain labels, fun _ => ?_⟩
  · induction labels with
    | nil => trivial
    | cons _ _ ih => exact ih
  · induction labels with
    | nil => rfl
    | cons _ _ ih => exact ih

/-- Only the range of a lexer can be broken. -/
theorem sketched_leaf {element : Element} {trail : Trail}
    (drawn : (plan.leaf? index element).map Leaf.trail = some trail) : plan.Sketched trail := by
  obtain ⟨leaf, found, rfl⟩ := Option.map_eq_some_iff.mp drawn
  cases leaf with
  | chain labels => exact sketched_chain labels
  | broken =>
      refine ⟨⟨by simp [Leaf.trail], trivial⟩, Trail.isOpen_chain [], fun parser => ?_⟩
      obtain ⟨form, position⟩ := element
      unfold leaf? at found
      rw [parser] at found
      cases form with
      | rule name precedence => simp [parserLeaf?, callLeaf?] at found
      | predicate code number precedence => cases precedence <;> cases found
      | _ => cases found

theorem opens_of_sketched {trails : List Trail} (sketched : ∀ trail ∈ trails, plan.Sketched trail) :
    ∀ trail ∈ trails, trail.IsOpen :=
  fun trail listed => (sketched trail listed).opens

theorem gaps_ofList {trails : List Trail} (sketched : ∀ trail ∈ trails, plan.Sketched trail)
    (parser : plan.kind = .parser) : (Ways.ofList trails).gaps = 0 :=
  Ways.gaps_ofList_eq_zero fun trail listed => (sketched trail listed).gapless parser

theorem sketched_joinAll {trails : List Trail} (sketched : ∀ trail ∈ trails, plan.Sketched trail)
    (some : trails ≠ []) : plan.Sketched (Trail.joinAll trails) :=
  ⟨.joinAll (fun trail listed => (sketched trail listed).solid) some,
    Trail.isOpen_joinAll (opens_of_sketched sketched) some,
    fun parser => (Trail.gaps_joinAll trails).trans (gaps_ofList sketched parser)⟩

theorem sketched_ofBlock {suffix : Option Suffix} {trails : List Trail} {trail : Trail}
    (drawn : Trail.ofBlock suffix trails = some trail) (sketched : ∀ trail ∈ trails, plan.Sketched trail) :
    plan.Sketched trail :=
  ⟨Trail.solid_ofBlock drawn fun trail listed => (sketched trail listed).solid,
    Trail.isOpen_ofBlock drawn (opens_of_sketched sketched),
    fun parser => (Trail.gaps_ofBlock drawn).trans (gaps_ofList sketched parser)⟩

theorem sketched_commands : ∀ {written : List Command} {trails : List Trail},
    plan.sketchCommands index written = some trails → ∀ trail ∈ trails, plan.Sketched trail
  | [], _, drawn => by
      cases drawn
      simp
  | first :: rest, _, drawn => by
      simp only [sketchCommands, Option.bind_eq_bind, Option.bind_eq_some_iff, Option.map_eq_some_iff,
        Option.pure_def, Option.some.injEq] at drawn
      obtain ⟨_, ⟨label, _, rfl⟩, trails, later, rfl⟩ := drawn
      exact List.forall_mem_cons.mpr ⟨sketched_chain [label], sketched_commands later⟩

theorem sketched_alternative {trails : List Trail} {written : List Command} {trail : Trail}
    (drawn : plan.assembleSketch index trails written = some trail)
    (sketched : ∀ trail ∈ trails, plan.Sketched trail) : plan.Sketched trail := by
  have body : plan.Sketched (if trails.isEmpty then Trail.chain [.epsilon] else Trail.joinAll trails) := by
    split
    · exact sketched_chain _
    · rename_i several
      exact sketched_joinAll sketched (by simpa using several)
  simp only [assembleSketch] at drawn
  split at drawn
  · cases drawn
    exact body
  · rename_i several
    obtain ⟨commands, made, rfl⟩ := Option.map_eq_some_iff.mp drawn
    have behind : plan.Sketched (Trail.joinAll commands) := by
      refine sketched_joinAll (sketched_commands made) ?_
      rintro rfl
      cases written with
      | nil => exact several rfl
      | cons first rest =>
          simp only [sketchCommands, Option.bind_eq_bind, Option.bind_eq_some_iff, Option.pure_def] at made
          obtain ⟨_, _, _, _, ends⟩ := made
          cases ends
    refine ⟨body.solid.append behind.solid, behind.opens.append _, fun parser => ?_⟩
    rw [Trail.gaps_append, body.gapless parser, behind.gapless parser]

mutual

theorem sketched_element : ∀ {element : Element} {trail : Trail}, plan.sketch index element = some trail →
    plan.Sketched trail
  | ⟨.block ⟨alternatives, suffix⟩, _⟩, trail, drawn => by
      simp only [sketch, Option.bind_eq_bind, Option.bind_eq_some_iff] at drawn
      obtain ⟨trails, made, framed⟩ := drawn
      exact sketched_ofBlock framed (sketched_alternatives made)
  | ⟨.token _, _⟩, _, drawn => sketched_leaf drawn
  | ⟨.rule _ _, _⟩, _, drawn => sketched_leaf drawn
  | ⟨.literal _, _⟩, _, drawn => sketched_leaf drawn
  | ⟨.charSet _, _⟩, _, drawn => sketched_leaf drawn
  | ⟨.range _ _, _⟩, _, drawn => sketched_leaf drawn
  | ⟨.set _ _, _⟩, _, drawn => sketched_leaf drawn
  | ⟨.wildcard, _⟩, _, drawn => sketched_leaf drawn
  | ⟨.action _ _, _⟩, _, drawn => sketched_leaf drawn
  | ⟨.predicate _ _ _, _⟩, _, drawn => sketched_leaf drawn

theorem sketched_list : ∀ {elements : List Element} {trails : List Trail},
    plan.sketchList index elements = some trails → ∀ trail ∈ trails, plan.Sketched trail
  | [], _, drawn => by
      cases drawn
      simp
  | first :: rest, _, drawn => by
      simp only [sketchList, Option.bind_eq_bind, Option.bind_eq_some_iff, Option.pure_def,
        Option.some.injEq] at drawn
      obtain ⟨trail, made, trails, later, rfl⟩ := drawn
      exact List.forall_mem_cons.mpr ⟨sketched_element made, sketched_list later⟩

theorem sketched_alternatives : ∀ {alternatives : List Alternative} {trails : List Trail},
    plan.sketchAlternatives index alternatives = some trails → ∀ trail ∈ trails, plan.Sketched trail
  | [], _, drawn => by
      cases drawn
      simp
  | ⟨elements, written⟩ :: rest, _, drawn => by
      simp only [sketchAlternatives, Option.bind_eq_bind, Option.bind_eq_some_iff, Option.pure_def,
        Option.some.injEq] at drawn
      obtain ⟨trails, made, trail, assembled, others, later, rfl⟩ := drawn
      exact List.forall_mem_cons.mpr
        ⟨sketched_alternative assembled (sketched_list made), sketched_alternatives later⟩

end

theorem sketched_body {body : Block} {trail : Trail} (drawn : plan.sketchBody index body = some trail) :
    plan.Sketched trail := by
  simp only [sketchBody, Option.bind_eq_bind, Option.bind_eq_some_iff] at drawn
  obtain ⟨trails, made, framed⟩ := drawn
  exact sketched_ofBlock framed (sketched_alternatives made)

end Sketched

section Idle

variable {plan : Plan} {index : Nat}

/-- Commands whose trails only lead on run nothing. -/
theorem runsNothing_of_sketchCommands : ∀ {written : List Command} {trails : List Trail},
    plan.sketchCommands index written = some trails → trails.all Trail.idle = true → plan.runsNothing written = true
  | [], _, _, _ => rfl
  | first :: rest, _, drawn, idle => by
      simp only [sketchCommands, Option.bind_eq_bind, Option.bind_eq_some_iff, Option.map_eq_some_iff,
        Option.pure_def, Option.some.injEq] at drawn
      obtain ⟨_, ⟨label, labelled, rfl⟩, trails, later, rfl⟩ := drawn
      rw [List.all_cons, Bool.and_eq_true, idle_chain, List.all_cons, Bool.and_eq_true] at idle
      have alone := commandErrand?_of_passes labelled idle.1.1
      have behind : plan.runsNothing rest = true := runsNothing_of_sketchCommands later idle.2
      rw [runsNothing] at behind ⊢
      simp [alone, behind]

theorem idle_assembleSketch {trails : List Trail} {written : List Command} {trail : Trail}
    (drawn : plan.assembleSketch index trails written = some trail)
    (sketched : ∀ trail ∈ trails, plan.Sketched trail) (idle : trail.idle = true) :
    trails.all Trail.idle = true ∧ plan.runsNothing written = true := by
  have body : (if trails.isEmpty then Trail.chain [.epsilon] else Trail.joinAll trails).idle = trails.all Trail.idle := by
    split
    · rename_i empty
      rw [List.isEmpty_iff.mp empty]
      rfl
    · exact Trail.idle_joinAll (opens_of_sketched sketched)
  simp only [assembleSketch] at drawn
  split at drawn
  · rename_i none
    cases drawn
    rw [List.isEmpty_iff.mp none]
    exact ⟨body.symm.trans idle, rfl⟩
  · obtain ⟨commands, made, rfl⟩ := Option.map_eq_some_iff.mp drawn
    rw [Trail.idle_append, body, Bool.and_eq_true,
      Trail.idle_joinAll (opens_of_sketched (sketched_commands made))] at idle
    exact ⟨idle.1, runsNothing_of_sketchCommands made idle.2⟩

/-- Only a block without a suffix around a single alternative can lead on. -/
theorem idle_ofBlock {suffix : Option Suffix} {trails : List Trail} {trail : Trail}
    (drawn : Trail.ofBlock suffix trails = some trail) (idle : trail.idle = true) :
    suffix = none ∧ trails = [trail] := by
  cases trails with
  | nil => cases drawn
  | cons first rest =>
      simp only [Trail.ofBlock] at drawn
      split at drawn
      · split at drawn
        · rename_i alone
          cases drawn
          exact ⟨rfl, by rw [List.isEmpty_iff.mp alone]⟩
        · cases drawn
          cases idle
      all_goals
        cases drawn
        cases idle

mutual

/-- An element whose trail only leads on does so by its form. -/
theorem leadsOn_of_sketch : ∀ {element : Element} {trail : Trail}, plan.sketch index element = some trail →
    trail.idle = true → plan.leadsOn element = true
  | ⟨.block ⟨alternatives, suffix⟩, _⟩, trail, drawn, idle => by
      simp only [sketch, Option.bind_eq_bind, Option.bind_eq_some_iff] at drawn
      obtain ⟨trails, made, framed⟩ := drawn
      obtain ⟨rfl, rfl⟩ := idle_ofBlock framed idle
      match alternatives, length_sketchAlternatives made, made with
      | [⟨elements, written⟩], _, made =>
          simp only [sketchAlternatives, Option.bind_eq_bind, Option.bind_eq_some_iff, Option.pure_def,
            Option.some.injEq, List.cons.injEq] at made
          obtain ⟨trails, listed, _, assembled, _, _, rfl, _⟩ := made
          have inner := idle_assembleSketch assembled (sketched_list listed) idle
          rw [leadsOn, allLeadOn_of_sketchList listed inner.1, inner.2]
          rfl
  | ⟨.token _, _⟩, _, drawn, idle | ⟨.rule _ _, _⟩, _, drawn, idle | ⟨.literal _, _⟩, _, drawn, idle
  | ⟨.charSet _, _⟩, _, drawn, idle | ⟨.range _ _, _⟩, _, drawn, idle | ⟨.set _ _, _⟩, _, drawn, idle
  | ⟨.wildcard, _⟩, _, drawn, idle | ⟨.action _ _, _⟩, _, drawn, idle | ⟨.predicate _ _ _, _⟩, _, drawn, idle => by
      obtain ⟨leaf, found, rfl⟩ := Option.map_eq_some_iff.mp drawn
      exact leadsOn_of_leaf found idle

theorem allLeadOn_of_sketchList : ∀ {elements : List Element} {trails : List Trail},
    plan.sketchList index elements = some trails → trails.all Trail.idle = true → plan.allLeadOn elements = true
  | [], _, _, _ => by rw [allLeadOn]
  | first :: rest, _, drawn, idle => by
      simp only [sketchList, Option.bind_eq_bind, Option.bind_eq_some_iff, Option.pure_def,
        Option.some.injEq] at drawn
      obtain ⟨trail, made, trails, later, rfl⟩ := drawn
      rw [List.all_cons, Bool.and_eq_true] at idle
      rw [allLeadOn, leadsOn_of_sketch made idle.1, allLeadOn_of_sketchList later idle.2]
      rfl

end

end Idle

end Plan

end GrammarNetwork
