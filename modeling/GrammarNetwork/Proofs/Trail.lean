import GrammarNetwork.Proofs.Heap

/-! Trails: what the pieces of a network look like. A trail is a list of transitions and blocks one after
the other, a block has a trail for each of its alternatives. Laid out, a trail is a heap: this is all that
there is of the piece in the network. -/

namespace GrammarNetwork

/-- The transition that consumes nothing and leads to `target`. -/
abbrev Transition.silent (target : StateId) : Transition :=
  ⟨target, .epsilon⟩

namespace Label

def isCall : Label → Bool
  | .call _ _ _ => true
  | _ => false

/-- The rule that is called. -/
def callee? : Label → Option Nat
  | .call rule _ _ => some rule
  | _ => none

/-- Whether a state with this label on its only transition is taken out before the end of a block. -/
def passes : Label → Bool
  | .epsilon | .predicate _ _ _ | .precedence _ => true
  | _ => false

/-- The transition with this label that goes on at `next`. A call goes on there after the called rule. -/
def edge (starts : Array StateId) (label : Label) (next : StateId) : Transition :=
  match label with
  | .call rule level _ => ⟨starts[rule]?.getD 0, .call rule level next⟩
  | label => ⟨next, label⟩

/-- The label without the numbers that depend on what else is in the network. -/
def erase : Label → Label
  | .call rule level _ => .call rule level 0
  | .action rule _ contextDependent => .action rule none contextDependent
  | label => label

variable (starts : Array StateId) (label : Label)

@[simp] theorem next_edge (next : StateId) : (label.edge starts next).next = next := by
  cases label <;> rfl

@[simp] theorem redirect_edge (next other : StateId) :
    (label.edge starts next).redirect other = label.edge starts other := by
  cases label <;> rfl

@[simp] theorem passes_edge (next : StateId) : (label.edge starts next).label.passes = label.passes := by
  cases label <;> rfl

@[simp] theorem isCall_edge (next : StateId) : (label.edge starts next).label.isCall = label.isCall := by
  cases label <;> rfl

@[simp] theorem edge_epsilon (next : StateId) : edge starts .epsilon next = .silent next := rfl

theorem target_edge (silent : label.isCall = false) (next : StateId) :
    (label.edge starts next).target = next := by
  cases label <;> first | rfl | cases silent

@[simp] theorem isCall_erase : label.erase.isCall = label.isCall := by
  cases label <;> rfl

@[simp] theorem passes_erase : label.erase.passes = label.passes := by
  cases label <;> rfl

@[simp] theorem erase_erase : label.erase.erase = label.erase := by
  cases label <;> rfl

end Label

/-- What stands around the alternatives of a block, with the numbers of the states and decisions of a loop. -/
inductive Frame where
  | plain (decision : Nat)
  | optional (decision : Nat) (greedy : Bool)
  | star (decision : Option Nat) (greedy : Bool) (entry loopBack loopEnd : StateId) (entryDecision : Nat)
  | plus (decision : Option Nat) (greedy : Bool) (loopBack loopEnd : StateId) (loopDecision : Nat)
deriving DecidableEq

/-- The ways out of a loop state: into the loop first if it is greedy. -/
def forkTargets (greedy : Bool) (inside outside : StateId) : List StateId :=
  if greedy then [inside, outside] else [outside, inside]

namespace Frame

def blockKind : Frame → BlockKind
  | .plain _ | .optional _ _ => .plain
  | .star _ _ _ _ _ _ => .star
  | .plus _ _ _ _ _ => .plus

/-- Whether the alternatives are the body of a loop that can be skipped. -/
def isStar : Frame → Bool
  | .star _ _ _ _ _ _ => true
  | _ => false

def isLoop : Frame → Bool
  | .star _ _ _ _ _ _ | .plus _ _ _ _ _ => true
  | _ => false

def isOptional : Frame → Bool
  | .optional _ _ => true
  | _ => false

/-- Whether there is a way past the alternatives. -/
def skips : Frame → Bool
  | .optional _ _ | .star _ _ _ _ _ _ => true
  | _ => false

def blockLoopBack : Frame → Option StateId
  | .plus _ _ loopBack _ _ => some loopBack
  | _ => none

def blockDecision : Frame → Option Nat
  | .plain decision | .optional decision _ => some decision
  | .star decision _ _ _ _ _ | .plus decision _ _ _ _ => decision

def blockNonGreedy : Frame → Bool
  | .optional _ greedy => !greedy
  | _ => false

/-- Where the block is entered. -/
def entry (start : StateId) : Frame → StateId
  | .star _ _ entry _ _ _ => entry
  | _ => start

/-- Where the block is left. -/
def outlet (exit : StateId) : Frame → StateId
  | .star _ _ _ _ loopEnd _ | .plus _ _ _ loopEnd _ => loopEnd
  | _ => exit

/-- Where the start of the block leads to. -/
def startTargets (exit : StateId) (entries : List StateId) : Frame → List StateId
  | .optional _ greedy => if greedy then entries ++ [exit] else exit :: entries
  | _ => entries

/-- Where the end of the block leads to. -/
def exitTargets (next : Option StateId) : Frame → List StateId
  | .star _ _ _ loopBack _ _ | .plus _ _ loopBack _ _ => [loopBack]
  | _ => next.toList

def loopStates (rule : Option Nat) (start : StateId) (next : Option StateId) : Frame → Heap
  | .star _ greedy entry loopBack loopEnd entryDecision =>
      [(entry, { rule, kind := .starLoopEntry (some loopBack),
                 transitions := (forkTargets greedy start loopEnd).map .silent,
                 decision := some entryDecision, nonGreedy := !greedy }),
        (loopEnd, { rule, kind := .loopEnd (some loopBack), transitions := next.toList.map .silent }),
        (loopBack, { rule, kind := .starLoopBack, transitions := [.silent entry] })]
  | .plus _ greedy loopBack loopEnd loopDecision =>
      [(loopBack, { rule, kind := .plusLoopBack,
                    transitions := (forkTargets greedy start loopEnd).map .silent,
                    decision := some loopDecision, nonGreedy := !greedy }),
        (loopEnd, { rule, kind := .loopEnd (some loopBack), transitions := next.toList.map .silent })]
  | _ => []

def startState (rule : Option Nat) (exit : StateId) (entries : List StateId) (frame : Frame) : State where
  rule := rule
  kind := .blockStart frame.blockKind (some exit) frame.blockLoopBack
  transitions := (frame.startTargets exit entries).map .silent
  decision := frame.blockDecision
  nonGreedy := frame.blockNonGreedy

def exitState (rule : Option Nat) (start : StateId) (next : Option StateId) (frame : Frame) : State where
  rule := rule
  kind := .blockEnd (some start)
  transitions := (frame.exitTargets next).map .silent

def states (rule : Option Nat) (start exit : StateId) (entries : List StateId) (next : Option StateId)
    (frame : Frame) : Heap :=
  (start, frame.startState rule exit entries) :: (exit, frame.exitState rule start next) ::
    frame.loopStates rule start next

def loopIds : Frame → List StateId
  | .star _ _ entry loopBack loopEnd _ => [entry, loopEnd, loopBack]
  | .plus _ _ loopBack loopEnd _ => [loopBack, loopEnd]
  | _ => []

/-- The frame without its numbers. -/
def erase : Frame → Frame
  | .plain _ => .plain 0
  | .optional _ greedy => .optional 0 greedy
  | .star decision greedy _ _ _ _ => .star (decision.map fun _ => 0) greedy 0 0 0 0
  | .plus decision greedy _ _ _ => .plus (decision.map fun _ => 0) greedy 0 0 0

theorem ids_states (rule : Option Nat) (start exit : StateId) (entries : List StateId)
    (next : Option StateId) (frame : Frame) :
    (frame.states rule start exit entries next).ids = start :: exit :: frame.loopIds := by
  cases frame <;> rfl

@[simp] theorem isStar_erase (frame : Frame) : frame.erase.isStar = frame.isStar := by
  cases frame <;> rfl

@[simp] theorem skips_erase (frame : Frame) : frame.erase.skips = frame.skips := by
  cases frame <;> rfl

@[simp] theorem isLoop_erase (frame : Frame) : frame.erase.isLoop = frame.isLoop := by
  cases frame <;> rfl

@[simp] theorem isOptional_erase (frame : Frame) : frame.erase.isOptional = frame.isOptional := by
  cases frame <;> rfl

end Frame

mutual

/-- A piece of a network, from where it is entered on. -/
inductive Trail where
  | done
  /-- A basic state with one transition. -/
  | step (source : StateId) (label : Label) (rest : Trail)
  /-- A basic state that leads nowhere. -/
  | gap (source : StateId) (rest : Trail)
  | block (frame : Frame) (start exit : StateId) (ways : Ways) (rest : Trail)

/-- The alternatives of a block. -/
inductive Ways where
  | none
  | more (way : Trail) (rest : Ways)

end

def Trail.first? : Trail → Option StateId
  | .done => none
  | .step source _ _ => some source
  | .gap source _ => some source
  | .block frame start _ _ _ => some (frame.entry start)

/-- Where one comes to when one goes on along the trail and then to `next`. -/
def Trail.enter (trail : Trail) (next : Option StateId) : Option StateId :=
  trail.first?.or next

/-- The states where the alternatives begin. -/
def Ways.entries (exit : StateId) : Ways → List StateId
  | .none => []
  | .more way rest => way.first?.getD exit :: rest.entries exit

mutual

/-- The states of a trail that goes on at `next`. The end of a trail that goes nowhere yet has no
transition. -/
def Trail.layout (starts : Array StateId) (rule : Option Nat) : Trail → Option StateId → Heap
  | .done, _ => []
  | .step source label rest, next =>
      (source, { rule, kind := .basic, transitions := (rest.enter next).toList.map (label.edge starts) }) ::
        rest.layout starts rule next
  | .gap source rest, next => (source, { rule, kind := .basic }) :: rest.layout starts rule next
  | .block frame start exit ways rest, next =>
      frame.states rule start exit (ways.entries exit) (rest.enter next) ++
        (ways.layout starts rule exit ++ rest.layout starts rule next)

def Ways.layout (starts : Array StateId) (rule : Option Nat) : Ways → StateId → Heap
  | .none, _ => []
  | .more way rest, exit => way.layout starts rule (some exit) ++ rest.layout starts rule exit

end

mutual

def Trail.ids : Trail → List StateId
  | .done => []
  | .step source _ rest => source :: rest.ids
  | .gap source rest => source :: rest.ids
  | .block frame start exit ways rest => start :: exit :: frame.loopIds ++ (ways.ids ++ rest.ids)

def Ways.ids : Ways → List StateId
  | .none => []
  | .more way rest => way.ids ++ rest.ids

end

/-- The state at the end of the trail. -/
def Trail.last? : Trail → Option StateId
  | .done => none
  | .step source _ rest => rest.last?.or (some source)
  | .gap source rest => rest.last?.or (some source)
  | .block frame _ exit _ rest => rest.last?.or (some (frame.outlet exit))

/-- The end of the trail can be led on without consuming anything. -/
def Trail.IsOpen : Trail → Prop
  | .done => False
  | .step _ label rest => (rest.first? = none ∧ label = .epsilon) ∨ rest.IsOpen
  | .gap _ rest => rest.IsOpen
  | .block _ _ _ _ rest => rest.first? = none ∨ rest.IsOpen

/-- One trail after the other. -/
def Trail.append : Trail → Trail → Trail
  | .done, next => next
  | .step source label rest, next => .step source label (rest.append next)
  | .gap source rest, next => .gap source (rest.append next)
  | .block frame start exit ways rest, next => .block frame start exit ways (rest.append next)

/-- The label of a trail that is a single transition. -/
def Trail.single? : Trail → Option (StateId × Label)
  | .step source label (.step _ _ .done) => some (source, label)
  | _ => none

/-- One trail after the other, where the end of a single transition is left out. -/
def Trail.join (trail next : Trail) : Trail :=
  match trail.single? with
  | some (source, label) => .step source label next
  | none => trail.append next

/-- The trail is one state that can be taken out before the end of a block. -/
def Trail.passes : Trail → Bool
  | .step _ label .done => label.passes
  | _ => false

mutual

/-- One can go along the trail without calling a rule. -/
def Trail.passable : Trail → Bool
  | .done => true
  | .step _ label rest => !label.isCall && rest.passable
  | .gap _ _ => false
  | .block frame _ _ ways rest => (frame.skips || ways.passable) && rest.passable

def Ways.passable : Ways → Bool
  | .none => false
  | .more way rest => way.passable || rest.passable

end

mutual

/-- The trail after one pass that takes out tails, where `other` says that the block whose end it leads to
is not the body of a star loop. The pass does not get behind calls. -/
def Trail.strip (other : Bool) : Trail → Trail
  | .done => .done
  | .step source label rest =>
      if other && rest.passes then .step source label .done
      else if label.isCall then .step source label rest
      else .step source label (rest.strip other)
  | .gap source rest => .gap source rest
  | .block frame start exit ways rest =>
      .block frame start exit (ways.strip !frame.isStar)
        (if frame.skips || ways.passable then rest.strip other else rest)

def Ways.strip (other : Bool) : Ways → Ways
  | .none => .none
  | .more way rest => .more (way.strip other) (rest.strip other)

end

mutual

/-- The trail without its numbers. -/
def Trail.erase : Trail → Trail
  | .done => .done
  | .step _ label rest => .step 0 label.erase rest.erase
  | .gap _ rest => .gap 0 rest.erase
  | .block frame _ _ ways rest => .block frame.erase 0 0 ways.erase rest.erase

def Ways.erase : Ways → Ways
  | .none => .none
  | .more way rest => .more way.erase rest.erase

end

mutual

def Trail.labels : Trail → List Label
  | .done => []
  | .step _ label rest => label :: rest.labels
  | .gap _ rest => rest.labels
  | .block _ _ _ ways rest => ways.labels ++ rest.labels

def Ways.labels : Ways → List Label
  | .none => []
  | .more way rest => way.labels ++ rest.labels

end

mutual

/-- The blocks of a kind inside the trail with their alternatives, inner ones before the one around them. -/
def Trail.blocks (kind : Frame → Bool) : Trail → List (Handle × Ways)
  | .done => []
  | .step _ _ rest => rest.blocks kind
  | .gap _ rest => rest.blocks kind
  | .block frame start exit ways rest =>
      ways.blocks kind ++ ((if kind frame then [(⟨start, exit⟩, ways)] else []) ++ rest.blocks kind)

def Ways.blocks (kind : Frame → Bool) : Ways → List (Handle × Ways)
  | .none => []
  | .more way rest => way.blocks kind ++ rest.blocks kind

end

mutual

theorem Trail.ids_layout (starts : Array StateId) (rule : Option Nat) :
    ∀ (trail : Trail) (next : Option StateId), (trail.layout starts rule next).ids = trail.ids
  | .done, _ => rfl
  | .step source label rest, next => by
      simp [Trail.layout, Trail.ids, rest.ids_layout starts rule next]
  | .gap source rest, next => by simp [Trail.layout, Trail.ids, rest.ids_layout starts rule next]
  | .block frame start exit ways rest, next => by
      simp [Trail.layout, Trail.ids, Frame.ids_states, ways.ids_layout starts rule exit,
        rest.ids_layout starts rule next]

theorem Ways.ids_layout (starts : Array StateId) (rule : Option Nat) :
    ∀ (ways : Ways) (exit : StateId), (ways.layout starts rule exit).ids = ways.ids
  | .none, _ => rfl
  | .more way rest, exit => by
      simp [Ways.layout, Ways.ids, way.ids_layout starts rule (some exit), rest.ids_layout starts rule exit]

end

namespace Trail

@[simp] theorem first?_eq_none {trail : Trail} : trail.first? = none ↔ trail = .done := by
  cases trail <;> simp [first?]

theorem enter_of_first? {trail : Trail} {id : StateId} (found : trail.first? = some id)
    (next : Option StateId) : trail.enter next = some id := by
  simp [enter, found]

theorem enter_some (trail : Trail) (next : StateId) : ∃ id, trail.enter (some next) = some id := by
  cases found : trail.first? <;> simp [enter, found]

@[simp] theorem enter_done (next : Option StateId) : enter .done next = next := rfl

theorem entry_mem (frame : Frame) (start exit : StateId) :
    frame.entry start ∈ start :: exit :: frame.loopIds := by
  cases frame <;> simp [Frame.entry, Frame.loopIds]

theorem outlet_mem (frame : Frame) (start exit : StateId) :
    frame.outlet exit ∈ start :: exit :: frame.loopIds := by
  cases frame <;> simp [Frame.outlet, Frame.loopIds]

theorem first?_mem {trail : Trail} {id : StateId} (found : trail.first? = some id) : id ∈ trail.ids := by
  cases trail with
  | done => cases found
  | step source label rest =>
      cases found
      simp [ids]
  | gap source rest =>
      cases found
      simp [ids]
  | block frame start exit ways rest =>
      cases found
      have member := entry_mem frame start exit
      simp only [ids, List.cons_append, List.mem_cons, List.mem_append] at member ⊢
      tauto

theorem last?_mem {id : StateId} : ∀ {trail : Trail}, trail.last? = some id → id ∈ trail.ids
  | .step source _ rest, found => by
      simp only [last?, Option.or_eq_some_iff, Option.some.injEq, ids, List.mem_cons] at found ⊢
      exact found.elim (fun inside => Or.inr (last?_mem inside)) fun here => Or.inl here.2.symm
  | .gap source rest, found => by
      simp only [last?, Option.or_eq_some_iff, Option.some.injEq, ids, List.mem_cons] at found ⊢
      exact found.elim (fun inside => Or.inr (last?_mem inside)) fun here => Or.inl here.2.symm
  | .block frame start exit ways rest, found => by
      have member := outlet_mem frame start exit
      simp only [last?, Option.or_eq_some_iff, Option.some.injEq, ids, List.mem_append] at found ⊢
      rcases found with inside | ⟨_, rfl⟩
      · exact Or.inr (Or.inr (last?_mem inside))
      · exact Or.inl member

theorem nodup_block {frame : Frame} {start exit : StateId} {ways : Ways} {rest : Trail} :
    (block frame start exit ways rest).ids.Nodup ↔
      (start :: exit :: frame.loopIds).Nodup ∧ ways.ids.Nodup ∧ rest.ids.Nodup ∧
        (∀ id ∈ start :: exit :: frame.loopIds, id ∉ ways.ids ∧ id ∉ rest.ids) ∧
        ∀ id ∈ ways.ids, id ∉ rest.ids := by
  rw [ids, List.nodup_append, List.nodup_append]
  constructor
  · rintro ⟨around, ⟨inside, behind, between⟩, apart⟩
    refine ⟨around, inside, behind, fun id member => ⟨?_, ?_⟩, ?_⟩
    · exact fun other => apart id member id (by simp [other]) rfl
    · exact fun other => apart id member id (by simp [other]) rfl
    · exact fun id member other => between id member id other rfl
  · rintro ⟨around, inside, behind, apart, between⟩
    refine ⟨around, ⟨inside, behind, ?_⟩, ?_⟩
    · rintro id member _ other rfl
      exact between id member other
    · rintro id member _ other rfl
      exact (List.mem_append.mp other).elim (apart id member).1 (apart id member).2

end Trail

theorem Ways.nodup_more {way : Trail} {rest : Ways} :
    (Ways.more way rest).ids.Nodup ↔
      way.ids.Nodup ∧ rest.ids.Nodup ∧ ∀ id ∈ way.ids, id ∉ rest.ids := by
  rw [Ways.ids, List.nodup_append]
  constructor
  · rintro ⟨first, later, apart⟩
    exact ⟨first, later, fun id member other => apart id member id other rfl⟩
  · rintro ⟨first, later, apart⟩
    exact ⟨first, later, by rintro id member _ other rfl; exact apart id member other⟩

end GrammarNetwork
