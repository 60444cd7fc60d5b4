import Mathlib.Data.List.Basic
import GrammarNetwork.Proofs.Stripping

/-! What taking out tails does to a trail that leads to the end of a block: the part that the walk reaches
is stripped, the rest of the network stays as it was. -/

namespace GrammarNetwork

/-- A state that is taken out, the state in front of it and the end of the block that it leads to. -/
structure Tail where
  source : StateId
  behind : StateId
  exit : StateId
deriving DecidableEq

/-- The heap without the tails; the states in front of them lead to the ends of the blocks. -/
def Heap.takeOut (tails : List Tail) (heap : Heap) : Heap :=
  heap.filterMap fun entry =>
    if entry.1 ∈ tails.map Tail.behind then none
    else
      match tails.find? fun tail => tail.source == entry.1 with
      | some tail =>
          some (entry.1, { entry.2 with
            transitions := entry.2.transitions.map fun transition => transition.redirect tail.exit })
      | none => some entry

/-- The states around a block that a walk reaches, where `through` says whether it gets through one of the
alternatives. -/
def Frame.reached (start exit : StateId) (through : Bool) : Frame → List StateId
  | .plain _ => start :: if through then [exit] else []
  | .optional _ _ => [start, exit]
  | .star _ _ entry loopBack loopEnd _ => [start, entry, loopEnd] ++ if through then [exit, loopBack] else []
  | .plus _ _ loopBack loopEnd _ => start :: if through then [exit, loopBack, loopEnd] else []

mutual

/-- The states of a trail that a walk from its first state reaches. -/
def Trail.reached : Trail → List StateId
  | .done => []
  | .step source label rest => source :: if label.isCall then [] else rest.reached
  | .gap source _ => [source]
  | .block frame start exit ways rest =>
      frame.reached start exit ways.passable ++
        (ways.reached ++ if frame.skips || ways.passable then rest.reached else [])

def Ways.reached : Ways → List StateId
  | .none => []
  | .more way rest => way.reached ++ rest.reached

end

mutual

/-- The tails that a pass takes out of a trail to `exit`. -/
def Trail.tails (other : Bool) : Trail → StateId → List Tail
  | .done, _ => []
  | .step source label rest, exit =>
      if other && rest.passes then rest.first?.toList.map fun behind => ⟨source, behind, exit⟩
      else if label.isCall then []
      else rest.tails other exit
  | .gap _ _, _ => []
  | .block frame _ inner ways rest, exit =>
      ways.tails (!frame.isStar) inner ++
        if frame.skips || ways.passable then rest.tails other exit else []

def Ways.tails (other : Bool) : Ways → StateId → List Tail
  | .none, _ => []
  | .more way rest, exit => way.tails other exit ++ rest.tails other exit

end

/-- The first state of the trail if it is a basic state with a transition. -/
def Trail.opening? : Trail → Option StateId
  | .step source _ _ => some source
  | _ => none

mutual

/-- The pairs of a basic state with a transition and such a state right behind it. -/
def Trail.pairs : Trail → List (StateId × StateId)
  | .done => []
  | .step source _ rest => (rest.opening?.toList.map fun behind => (source, behind)) ++ rest.pairs
  | .gap _ rest => rest.pairs
  | .block _ _ _ ways rest => ways.pairs ++ rest.pairs

def Ways.pairs : Ways → List (StateId × StateId)
  | .none => []
  | .more way rest => way.pairs ++ rest.pairs

end

namespace Network

/-- The states of the heap are in the network. -/
def Holds (network : Network) (heap : Heap) : Prop :=
  ∀ id state, (id, state) ∈ heap → network.state? id = some state

@[simp] theorem holds_nil (network : Network) : network.Holds [] := by
  simp [Holds]

@[simp] theorem holds_cons {network : Network} {entry : StateId × State} {heap : Heap} :
    network.Holds (entry :: heap) ↔ network.state? entry.1 = some entry.2 ∧ network.Holds heap := by
  obtain ⟨id, state⟩ := entry
  constructor
  · intro holds
    exact ⟨holds id state (by simp), fun other old member => holds other old (by simp [member])⟩
  · rintro ⟨here, holds⟩ other old member
    rcases List.mem_cons.mp member with same | inside
    · cases same
      exact here
    · exact holds other old inside

@[simp] theorem holds_append {network : Network} {left right : Heap} :
    network.Holds (left ++ right) ↔ network.Holds left ∧ network.Holds right := by
  constructor
  · intro holds
    exact ⟨fun id state member => holds id state (by simp [member]),
      fun id state member => holds id state (by simp [member])⟩
  · rintro ⟨first, second⟩ id state member
    exact (List.mem_append.mp member).elim (first id state) (second id state)

end Network

theorem Trail.passes_eq_true {trail : Trail} :
    trail.passes = true ↔ ∃ source label, trail = .step source label .done ∧ label.passes = true := by
  unfold Trail.passes
  split <;> simp_all

theorem Trail.first?_of_opening? {trail : Trail} {id : StateId} (opens : trail.opening? = some id) :
    trail.first? = some id := by
  cases trail <;> simp_all [Trail.opening?, Trail.first?]

theorem Frame.reached_subset {frame : Frame} {start exit id : StateId} {through : Bool}
    (member : id ∈ frame.reached start exit through) : id ∈ start :: exit :: frame.loopIds := by
  cases frame <;> cases through <;> simp_all [Frame.reached, Frame.loopIds] <;> tauto

mutual

theorem Trail.reached_subset {id : StateId} : ∀ (trail : Trail), id ∈ trail.reached → id ∈ trail.ids
  | .done, member => by simp [Trail.reached] at member
  | .step source label rest, member => by
      simp only [Trail.reached, List.mem_cons, Trail.ids] at member ⊢
      rcases member with here | inside
      · exact Or.inl here
      · split at inside
        · simp at inside
        · exact Or.inr (rest.reached_subset inside)
  | .gap source rest, member => by
      simp only [Trail.reached, List.mem_singleton] at member
      simp [Trail.ids, member]
  | .block frame start exit ways rest, member => by
      simp only [Trail.reached, List.mem_append, Trail.ids] at member ⊢
      rcases member with around | inside | behind
      · exact Or.inl (Frame.reached_subset around)
      · exact Or.inr (Or.inl (ways.reached_subset inside))
      · split at behind
        · exact Or.inr (Or.inr (rest.reached_subset behind))
        · simp at behind

theorem Ways.reached_subset {id : StateId} : ∀ (ways : Ways), id ∈ ways.reached → id ∈ ways.ids
  | .none, member => by simp [Ways.reached] at member
  | .more way rest, member => by
      simp only [Ways.reached, List.mem_append, Ways.ids] at member ⊢
      exact member.imp way.reached_subset rest.reached_subset

end

mutual

/-- A tail that is taken out lies on the trail, behind a state that the walk reaches. -/
theorem Trail.mem_tails {other : Bool} {tail : Tail} : ∀ (trail : Trail) (exit : StateId),
    tail ∈ trail.tails other exit → tail.source ∈ trail.reached ∧ tail.behind ∈ trail.ids
  | .done, _, member => by simp [Trail.tails] at member
  | .step source label rest, exit, member => by
      simp only [Trail.tails] at member
      split at member
      · simp only [List.mem_map, Option.mem_toList] at member
        obtain ⟨behind, first, rfl⟩ := member
        simp [Trail.reached, Trail.ids, Trail.first?_mem first]
      · split at member
        · simp at member
        · have inside := rest.mem_tails exit member
          simp_all [Trail.reached, Trail.ids]
  | .gap source rest, _, member => by simp [Trail.tails] at member
  | .block frame start inner ways rest, exit, member => by
      simp only [Trail.tails, List.mem_append] at member
      simp only [Trail.reached, Trail.ids, List.mem_append]
      rcases member with inside | behind
      · exact (ways.mem_tails inner inside).imp (Or.inr ∘ Or.inl) (Or.inr ∘ Or.inl)
      · split at behind
        · rename_i through
          rw [if_pos through]
          exact (rest.mem_tails exit behind).imp (Or.inr ∘ Or.inr) (Or.inr ∘ Or.inr)
        · simp at behind

theorem Ways.mem_tails {other : Bool} {tail : Tail} : ∀ (ways : Ways) (exit : StateId),
    tail ∈ ways.tails other exit → tail.source ∈ ways.reached ∧ tail.behind ∈ ways.ids
  | .none, _, member => by simp [Ways.tails] at member
  | .more way rest, exit, member => by
      simp only [Ways.tails, List.mem_append] at member
      simp only [Ways.reached, Ways.ids, List.mem_append]
      exact member.elim (fun first => (way.mem_tails exit first).imp Or.inl Or.inl)
        fun later => (rest.mem_tails exit later).imp Or.inr Or.inr

end

theorem Trail.mem_of_mem_tails {other : Bool} {tail : Tail} (trail : Trail) (exit : StateId)
    (member : tail ∈ trail.tails other exit) : tail.source ∈ trail.ids ∧ tail.behind ∈ trail.ids :=
  (trail.mem_tails exit member).imp_left trail.reached_subset

theorem Ways.mem_of_mem_tails {other : Bool} {tail : Tail} (ways : Ways) (exit : StateId)
    (member : tail ∈ ways.tails other exit) : tail.source ∈ ways.ids ∧ tail.behind ∈ ways.ids :=
  (ways.mem_tails exit member).imp_left ways.reached_subset

section Layout

variable {network : Network} {starts : Array StateId} {rule : Option Nat}

theorem Frame.holds_states {frame : Frame} {start exit : StateId} {entries : List StateId}
    {next : Option StateId} (holds : network.Holds (frame.states rule start exit entries next)) :
    network.state? start = some (frame.startState rule exit entries) ∧
      network.state? exit = some (frame.exitState rule start next) ∧
      network.Holds (frame.loopStates rule start next) := by
  simpa [Frame.states] using holds

theorem Frame.endsOtherBlock_exit {frame : Frame} {start exit : StateId} {entries : List StateId}
    {next : Option StateId} (holds : network.Holds (frame.states rule start exit entries next)) :
    network.endsOtherBlock exit = !frame.isStar := by
  obtain ⟨atStart, atExit, _⟩ := Frame.holds_states holds
  cases frame <;>
    simp [Network.endsOtherBlock, atExit, Frame.exitState, Network.isStarBlockStart, atStart,
      Frame.startState, Frame.blockKind, Frame.isStar]

theorem Frame.kind_ne_basic {frame : Frame} {start exit id : StateId} {entries : List StateId}
    {next : Option StateId} {state : State}
    (member : (id, state) ∈ frame.states rule start exit entries next) : state.kind ≠ .basic := by
  simp only [Frame.states, List.mem_cons, Prod.mk.injEq] at member
  rcases member with ⟨_, rfl⟩ | ⟨_, rfl⟩ | member
  · simp [Frame.startState]
  · simp [Frame.exitState]
  · cases frame with
    | plain decision => simp [Frame.loopStates] at member
    | optional decision greedy => simp [Frame.loopStates] at member
    | star decision greedy entry loopBack loopEnd entryDecision =>
        simp only [Frame.loopStates, List.mem_cons, Prod.mk.injEq, List.not_mem_nil, or_false] at member
        rcases member with ⟨_, rfl⟩ | ⟨_, rfl⟩ | ⟨_, rfl⟩ <;> simp
    | plus decision greedy loopBack loopEnd loopDecision =>
        simp only [Frame.loopStates, List.mem_cons, Prod.mk.injEq, List.not_mem_nil, or_false] at member
        rcases member with ⟨_, rfl⟩ | ⟨_, rfl⟩ <;> simp

theorem Network.onlyTransition?_of_kind {id : StateId} {state : State}
    (found : network.state? id = some state) (kind : state.kind ≠ .basic) :
    network.onlyTransition? id = none := by
  cases only : network.onlyTransition? id with
  | none => rfl
  | some transition =>
      obtain ⟨other, again, basic, _⟩ := Network.onlyTransition?_eq_some.mp only
      rw [found] at again
      cases again
      exact absurd basic kind

theorem Trail.onlyTransition?_first {trail : Trail} {next : StateId} (id : StateId)
    (holds : network.Holds (trail.layout starts rule (some next))) (first : trail.first? = some id) :
    network.onlyTransition? id =
      match trail with
      | .step _ label rest => (rest.enter (some next)).map (label.edge starts)
      | _ => none := by
  cases trail with
  | done => cases first
  | step source label rest =>
      cases first
      simp only [Trail.layout, Network.holds_cons] at holds
      cases entered : rest.enter (some next) <;> simp [Network.onlyTransition?, holds.1, entered]
  | gap source rest =>
      cases first
      simp only [Trail.layout, Network.holds_cons] at holds
      simp [Network.onlyTransition?, holds.1]
  | block frame start exit ways rest =>
      cases first
      simp only [Trail.layout, Network.holds_append] at holds
      have member : frame.entry start ∈
          (frame.states rule start exit (ways.entries exit) (rest.enter (some next))).ids := by
        rw [Frame.ids_states]
        exact Trail.entry_mem frame start exit
      obtain ⟨state, member⟩ := Heap.mem_ids.mp member
      exact Network.onlyTransition?_of_kind (holds.1 _ _ member) (Frame.kind_ne_basic member)

theorem Trail.endsOtherBlock_first {trail : Trail} {next : StateId} (id : StateId)
    (holds : network.Holds (trail.layout starts rule (some next))) (first : trail.first? = some id) :
    network.endsOtherBlock id = false := by
  cases trail with
  | done => cases first
  | step source label rest =>
      cases first
      simp only [Trail.layout, Network.holds_cons] at holds
      simp [Network.endsOtherBlock, holds.1]
  | gap source rest =>
      cases first
      simp only [Trail.layout, Network.holds_cons] at holds
      simp [Network.endsOtherBlock, holds.1]
  | block frame start exit ways rest =>
      cases first
      simp only [Trail.layout, Network.holds_append] at holds
      obtain ⟨atStart, _, loop⟩ := Frame.holds_states holds.1
      cases frame with
      | plain decision => simp [Network.endsOtherBlock, Frame.entry, atStart, Frame.startState]
      | optional decision greedy => simp [Network.endsOtherBlock, Frame.entry, atStart, Frame.startState]
      | plus decision greedy loopBack loopEnd loopDecision =>
          simp [Network.endsOtherBlock, Frame.entry, atStart, Frame.startState]
      | star decision greedy entry loopBack loopEnd entryDecision =>
          simp only [Frame.loopStates, Network.holds_cons] at loop
          simp [Network.endsOtherBlock, Frame.entry, loop.1]

theorem Trail.tail?_step {source next : StateId} {label : Label} {rest : Trail}
    (holds : network.Holds ((Trail.step source label rest).layout starts rule (some next)))
    (blockEnd : network.onlyTransition? next = none) :
    network.tail? source =
      if network.endsOtherBlock next && rest.passes then rest.first?.map fun behind => (behind, next)
      else none := by
  have only := Trail.onlyTransition?_first source holds rfl
  simp only [Trail.layout, Network.holds_cons] at holds
  cases rest with
  | done => simp [Network.tail?, only, Trail.enter, Trail.first?, blockEnd, Trail.passes]
  | gap behind last =>
      have onlyBehind := Trail.onlyTransition?_first behind holds.2 rfl
      simp [Network.tail?, only, Trail.enter, Trail.first?, onlyBehind, Trail.passes]
  | block frame start exit ways last =>
      have onlyBehind := Trail.onlyTransition?_first (frame.entry start) holds.2 rfl
      simp [Network.tail?, only, Trail.enter, Trail.first?, onlyBehind, Trail.passes]
  | step behind second last =>
      have onlyBehind := Trail.onlyTransition?_first behind holds.2 rfl
      simp only [Trail.layout, Network.holds_cons] at holds
      by_cases passes : second.passes = true
      -- The state behind passes silently, so it is a tail where it leads to the end of another block, and in a trail
        -- only `next` can be one.
      · have silent := Label.not_isCall_of_passes passes
        cases last with
        | done =>
            simp [Network.tail?, only, Trail.enter, Trail.first?, onlyBehind, Trail.passes, passes,
              Label.target_edge starts second silent]
        | step third _ _ =>
            have ends := Trail.endsOtherBlock_first third holds.2.2 rfl
            simp [Network.tail?, only, Trail.enter, Trail.first?, onlyBehind, Trail.passes,
              Label.target_edge starts second silent, ends]
        | gap third _ =>
            have ends := Trail.endsOtherBlock_first third holds.2.2 rfl
            simp [Network.tail?, only, Trail.enter, Trail.first?, onlyBehind, Trail.passes,
              Label.target_edge starts second silent, ends]
        | block frame start exit ways _ =>
            have ends := Trail.endsOtherBlock_first (frame.entry start) holds.2.2 rfl
            simp [Network.tail?, only, Trail.enter, Trail.first?, onlyBehind, Trail.passes,
              Label.target_edge starts second silent, ends]
      -- A transition that does not pass silently is kept.
      · have kept : (Trail.step behind second last).passes = false := by
          cases last <;> simp_all [Trail.passes]
        cases entered : last.enter (some next) <;>
          simp [Network.tail?, only, Trail.enter, Trail.first?, onlyBehind, passes, kept]

mutual

/-- The tails on the way of the walk are those that a pass takes out. -/
theorem Trail.tail?_iff {other : Bool} {id behind exit : StateId} : ∀ (trail : Trail) (next : StateId),
    network.Holds (trail.layout starts rule (some next)) → trail.ids.Nodup →
    network.onlyTransition? next = none → network.endsOtherBlock next = other → id ∈ trail.reached →
    (network.tail? id = some (behind, exit) ↔ ⟨id, behind, exit⟩ ∈ trail.tails other next)
  | .done, _, _, _, _, _, member => by simp [Trail.reached] at member
  | .step source label rest, next, holds, unique, blockEnd, ends, member => by
      have atSource := Trail.tail?_step holds blockEnd
      simp only [Trail.layout, Network.holds_cons] at holds
      simp only [Trail.ids, List.nodup_cons] at unique
      simp only [Trail.reached, List.mem_cons] at member
      rcases member with rfl | inside
      -- At the first state the tail is what follows it; further on it is a tail of the rest, whose ids are others.
      · rw [atSource, ends, Trail.tails]
        by_cases strips : (other && rest.passes) = true
        · cases rest.first? <;> simp [strips, eq_comm]
        · simp only [strips, Bool.false_eq_true, ↓reduceIte, reduceCtorEq, false_iff]
          split
          · simp
          · exact fun impossible => unique.1 (rest.mem_of_mem_tails next impossible).1
      · split at inside
        · simp at inside
        · rename_i silent
          have different : id ≠ source := fun same => unique.1 (same ▸ rest.reached_subset inside)
          rw [rest.tail?_iff next holds.2 unique.2 blockEnd ends inside, Trail.tails]
          by_cases strips : (other && rest.passes) = true
          · obtain ⟨last, second, rfl, passes⟩ := Trail.passes_eq_true.mp (Bool.and_eq_true_iff.mp strips).2
            simp [Trail.tails, Trail.passes, Trail.first?, different]
          · simp [strips, silent]
  | .gap source rest, next, holds, _, _, _, member => by
      simp only [Trail.reached, List.mem_singleton] at member
      subst member
      have only := Trail.onlyTransition?_first id holds rfl
      simp [Network.tail?, only, Trail.tails]
  | .block frame start inner ways rest, next, holds, unique, blockEnd, ends, member => by
      simp only [Trail.layout, Network.holds_append] at holds
      obtain ⟨around, inside, behindUnique, apart, between⟩ := Trail.nodup_block.mp unique
      have innerEnds := Frame.endsOtherBlock_exit holds.1
      have innerOnly : network.onlyTransition? inner = none :=
        Network.onlyTransition?_of_kind (Frame.holds_states holds.1).2.1 (by simp [Frame.exitState])
      simp only [Trail.reached, List.mem_append] at member
      simp only [Trail.tails, List.mem_append]
      rcases member with outer | inWays | inRest
      -- No state around the block is basic, so no tail begins there.
      · have outer := Frame.reached_subset outer
        have absentWays : ⟨id, behind, exit⟩ ∉ ways.tails (!frame.isStar) inner := fun impossible =>
          (apart id outer).1 (ways.mem_of_mem_tails inner impossible).1
        have absentRest : ⟨id, behind, exit⟩ ∉ rest.tails other next := fun impossible =>
          (apart id outer).2 (rest.mem_of_mem_tails next impossible).1
        obtain ⟨state, found⟩ := Heap.mem_ids.mp
          (Frame.ids_states rule start inner (ways.entries inner) (rest.enter (some next)) frame ▸ outer)
        have only := Network.onlyTransition?_of_kind (holds.1 id state found) (Frame.kind_ne_basic found)
        split <;> simp [Network.tail?, only, absentWays, absentRest]
      · rw [ways.tail?_iff inner holds.2.1 inside innerOnly innerEnds inWays]
        have absent : ⟨id, behind, exit⟩ ∉ rest.tails other next := fun impossible =>
          between id (ways.reached_subset inWays) (rest.mem_of_mem_tails next impossible).1
        split <;> simp [absent]
      · split at inRest
        · rename_i through
          rw [rest.tail?_iff next holds.2.2 behindUnique blockEnd ends inRest]
          have absent : ⟨id, behind, exit⟩ ∉ ways.tails (!frame.isStar) inner := fun impossible =>
            between id (ways.mem_of_mem_tails inner impossible).1 (rest.reached_subset inRest)
          simp [through, absent]
        · simp at inRest

theorem Ways.tail?_iff {other : Bool} {id behind exit : StateId} : ∀ (ways : Ways) (next : StateId),
    network.Holds (ways.layout starts rule next) → ways.ids.Nodup →
    network.onlyTransition? next = none → network.endsOtherBlock next = other → id ∈ ways.reached →
    (network.tail? id = some (behind, exit) ↔ ⟨id, behind, exit⟩ ∈ ways.tails other next)
  | .none, _, _, _, _, _, member => by simp [Ways.reached] at member
  | .more way rest, next, holds, unique, blockEnd, ends, member => by
      simp only [Ways.layout, Network.holds_append] at holds
      rw [Ways.nodup_more] at unique
      simp only [Ways.reached, List.mem_append] at member
      simp only [Ways.tails, List.mem_append]
      rcases member with first | later
      · rw [way.tail?_iff next holds.1 unique.1 blockEnd ends first]
        have absent : ⟨id, behind, exit⟩ ∉ rest.tails other next := fun impossible =>
          unique.2.2 _ (way.reached_subset first) (rest.mem_of_mem_tails next impossible).1
        simp [absent]
      · rw [rest.tail?_iff next holds.2 unique.2.1 blockEnd ends later]
        have absent : ⟨id, behind, exit⟩ ∉ way.tails other next := fun impossible =>
          unique.2.2 _ (way.mem_of_mem_tails next impossible).1 (rest.reached_subset later)
        simp [absent]

end

theorem Trail.first?_reached {trail : Trail} {id : StateId} (first : trail.first? = some id) :
    id ∈ trail.reached := by
  cases trail with
  | done => cases first
  | step source label rest =>
      cases first
      simp [Trail.reached]
  | gap source rest =>
      cases first
      simp [Trail.reached]
  | block frame start exit ways rest =>
      cases first
      cases frame <;> simp [Trail.reached, Frame.entry, Frame.reached]

theorem Trail.entered_reached {trail : Trail} {next target : StateId}
    (entered : trail.enter (some next) = some target) :
    target ∈ trail.reached ∨ target = next ∧ trail.passable = true := by
  cases first : trail.first? with
  | none =>
      rw [Trail.first?_eq_none] at first
      subst first
      exact Or.inr ⟨by simpa using entered.symm, by simp [Trail.passable]⟩
  | some id =>
      rw [Trail.enter_of_first? first] at entered
      cases entered
      exact Or.inl (Trail.first?_reached first)

theorem Ways.entries_reached {target exit : StateId} : ∀ (ways : Ways), target ∈ ways.entries exit →
    target ∈ ways.reached ∨ target = exit ∧ ways.passable = true
  | .none, member => by simp [Ways.entries] at member
  | .more way rest, member => by
      simp only [Ways.entries, List.mem_cons] at member
      simp only [Ways.reached, List.mem_append, Ways.passable, Bool.or_eq_true]
      rcases member with first | later
      · have entered : way.enter (some exit) = some target := by
          rw [first]
          cases found : way.first? <;> simp [Trail.enter, found]
        rcases Trail.entered_reached entered with inside | ⟨same, through⟩
        · exact Or.inl (Or.inl inside)
        · exact Or.inr ⟨same, Or.inl through⟩
      · rcases rest.entries_reached later with inside | ⟨same, through⟩
        · exact Or.inl (Or.inr inside)
        · exact Or.inr ⟨same, Or.inr through⟩

/-- The states around a block that are reached lead to such states, into the alternatives or behind the
block. -/
theorem Frame.target_reached {frame : Frame} {start exit id next : StateId} {entries : List StateId}
    {through : Bool} {state : State} {transition : Transition}
    (holds : network.Holds (frame.states rule start exit entries (some next)))
    (member : id ∈ frame.reached start exit through) (found : network.state? id = some state)
    (leaves : transition ∈ state.transitions) :
    transition.target ∈ frame.reached start exit through ∨ transition.target ∈ entries ∨
      transition.target = next ∧ (frame.skips || through) = true := by
  obtain ⟨atStart, atExit, loop⟩ := Frame.holds_states holds
  cases frame with
  | plain decision =>
      simp only [Frame.reached, Frame.startState, Frame.startTargets, Frame.exitState, Frame.exitTargets,
        Frame.skips] at *
      grind
  | optional decision greedy =>
      simp only [Frame.reached, Frame.startState, Frame.startTargets, Frame.exitState, Frame.exitTargets,
        Frame.skips] at *
      grind
  | star decision greedy entry loopBack loopEnd entryDecision =>
      simp only [Frame.reached, Frame.startState, Frame.startTargets, Frame.exitState, Frame.exitTargets,
        Frame.skips, Frame.loopStates, forkTargets, Network.holds_cons] at *
      grind
  | plus decision greedy loopBack loopEnd loopDecision =>
      simp only [Frame.reached, Frame.startState, Frame.startTargets, Frame.exitState, Frame.exitTargets,
        Frame.skips, Frame.loopStates, forkTargets, Network.holds_cons] at *
      grind

theorem Frame.exit_reached {frame : Frame} {start exit : StateId} :
    exit ∈ frame.reached start exit true := by
  cases frame <;> simp [Frame.reached]

mutual

/-- What is reached leads to what is reached, to the called rules or, if one can get along the trail, to
what comes behind it. -/
theorem Trail.target_reached {id : StateId} {state : State} {transition : Transition}
    (found : network.state? id = some state) (leaves : transition ∈ state.transitions) :
    ∀ (trail : Trail) (next : StateId), network.Holds (trail.layout starts rule (some next)) →
    id ∈ trail.reached → transition.label.isCall = true ∨ transition.target ∈ trail.reached ∨
      transition.target = next ∧ trail.passable = true
  | .done, _, _, member => by simp [Trail.reached] at member
  | .step source label rest, next, holds, member => by
      simp only [Trail.layout, Network.holds_cons] at holds
      simp only [Trail.reached, List.mem_cons] at member ⊢
      cases call : label.isCall with
      | true =>
          simp only [call, ↓reduceIte, List.not_mem_nil, or_false] at member
          subst member
          rw [found] at holds
          obtain ⟨same, _⟩ := holds
          cases same
          simp only [List.mem_map] at leaves
          obtain ⟨target, _, rfl⟩ := leaves
          simp [call]
      | false =>
          simp only [call, Bool.false_eq_true, ↓reduceIte, Trail.passable, Bool.not_false,
            Bool.true_and] at member ⊢
          rcases member with rfl | inside
          · rw [found] at holds
            obtain ⟨same, _⟩ := holds
            cases same
            simp only [List.mem_map, Option.mem_toList] at leaves
            obtain ⟨target, entered, rfl⟩ := leaves
            rw [label.target_edge starts call]
            rcases Trail.entered_reached entered with inside | past
            · exact Or.inr (Or.inl (Or.inr inside))
            · exact Or.inr (Or.inr past)
          · rcases rest.target_reached found leaves next holds.2 inside with call | inside | past
            · exact Or.inl call
            · exact Or.inr (Or.inl (Or.inr inside))
            · exact Or.inr (Or.inr past)
  | .gap source rest, next, holds, member => by
      simp only [Trail.layout, Network.holds_cons] at holds
      simp only [Trail.reached, List.mem_singleton] at member
      subst member
      rw [found] at holds
      obtain ⟨same, _⟩ := holds
      cases same
      simp at leaves
  | .block frame start exit ways rest, next, holds, member => by
      simp only [Trail.layout, Network.holds_append] at holds
      simp only [Trail.reached, List.mem_append] at member ⊢
      simp only [Trail.passable, Bool.and_eq_true]
      -- what leads to the end of the block is reached only if one gets through an alternative
      have atExit : transition.target = exit ∧ ways.passable = true →
          transition.target ∈ frame.reached start exit ways.passable := by
        rintro ⟨same, through⟩
        rw [same, through]
        exact Frame.exit_reached
      rcases member with outer | inWays | inRest
      · obtain ⟨behind, entered⟩ := rest.enter_some next
        rcases Frame.target_reached (entered ▸ holds.1) outer found leaves with inside | into | past
        · exact Or.inr (Or.inl (Or.inl inside))
        · rcases ways.entries_reached into with inside | past
          · exact Or.inr (Or.inl (Or.inr (Or.inl inside)))
          · exact Or.inr (Or.inl (Or.inl (atExit past)))
        · rw [← past.1] at entered
          rcases Trail.entered_reached entered with inside | beyond
          · exact Or.inr (Or.inl (Or.inr (Or.inr (by simpa [past.2] using inside))))
          · exact Or.inr (Or.inr ⟨beyond.1, past.2, beyond.2⟩)
      · rcases ways.target_reached found leaves exit holds.2.1 inWays with call | inside | past
        · exact Or.inl call
        · exact Or.inr (Or.inl (Or.inr (Or.inl inside)))
        · exact Or.inr (Or.inl (Or.inl (atExit past)))
      · split at inRest
        · rename_i through
          rcases rest.target_reached found leaves next holds.2.2 inRest with call | inside | past
          · exact Or.inl call
          · exact Or.inr (Or.inl (Or.inr (Or.inr (by simpa [through] using inside))))
          · exact Or.inr (Or.inr ⟨past.1, through, past.2⟩)
        · simp at inRest

theorem Ways.target_reached {id : StateId} {state : State} {transition : Transition}
    (found : network.state? id = some state) (leaves : transition ∈ state.transitions) :
    ∀ (ways : Ways) (exit : StateId), network.Holds (ways.layout starts rule exit) →
    id ∈ ways.reached → transition.label.isCall = true ∨ transition.target ∈ ways.reached ∨
      transition.target = exit ∧ ways.passable = true
  | .none, _, _, member => by simp [Ways.reached] at member
  | .more way rest, exit, holds, member => by
      simp only [Ways.layout, Network.holds_append] at holds
      simp only [Ways.reached, List.mem_append, Ways.passable, Bool.or_eq_true] at member ⊢
      rcases member with first | later
      · rcases way.target_reached found leaves exit holds.1 first with call | inside | past
        · exact Or.inl call
        · exact Or.inr (Or.inl (Or.inl inside))
        · exact Or.inr (Or.inr ⟨past.1, Or.inl past.2⟩)
      · rcases rest.target_reached found leaves exit holds.2 later with call | inside | past
        · exact Or.inl call
        · exact Or.inr (Or.inl (Or.inr inside))
        · exact Or.inr (Or.inr ⟨past.1, Or.inr past.2⟩)

end

end Layout

section Reaching

variable {network : Network} {starts : Array StateId} {rule : Option Nat} {origin : StateId}

theorem Network.Reaches.follow {id : StateId} {state : State}
    (reaches : network.Reaches rule origin id) (target : StateId) (found : network.state? id = some state)
    (leads : .silent target ∈ state.transitions) (inside : network.isInRule rule target = true) :
    network.Reaches rule origin target :=
  .next reaches found leads inside

theorem Network.isInRule_of_state? {id : StateId} {state : State} (found : network.state? id = some state)
    (same : state.rule = rule) : network.isInRule rule id = true := by
  simp [Network.isInRule, found, same]

theorem Frame.reaches_start {frame : Frame} {start exit : StateId} {entries : List StateId}
    {next : Option StateId} (holds : network.Holds (frame.states rule start exit entries next))
    (reaches : network.Reaches rule origin (frame.entry start)) : network.Reaches rule origin start := by
  obtain ⟨atStart, _, loop⟩ := Frame.holds_states holds
  have inside : network.isInRule rule start = true := Network.isInRule_of_state? atStart rfl
  cases frame with
  | plain decision => exact reaches
  | optional decision greedy => exact reaches
  | plus decision greedy loopBack loopEnd loopDecision => exact reaches
  | star decision greedy entry loopBack loopEnd entryDecision =>
      simp only [Frame.loopStates, Network.holds_cons] at loop
      exact reaches.follow start loop.1 (by cases greedy <;> simp [forkTargets]) inside

theorem Frame.reaches_entries {frame : Frame} {start exit id : StateId} {entries : List StateId}
    {next : Option StateId} (holds : network.Holds (frame.states rule start exit entries next))
    (reaches : network.Reaches rule origin start) (member : id ∈ entries)
    (inside : network.isInRule rule id = true) : network.Reaches rule origin id := by
  obtain ⟨atStart, _, _⟩ := Frame.holds_states holds
  refine reaches.follow id atStart ?_ inside
  cases frame with
  | optional decision greedy => cases greedy <;> simp [Frame.startState, Frame.startTargets, member]
  | _ => simp [Frame.startState, Frame.startTargets, member]

/-- A walk that comes to a block reaches the states around it and, if it can, what comes behind. -/
theorem Frame.reaches {frame : Frame} {start exit next : StateId} {entries : List StateId} {through : Bool}
    (holds : network.Holds (frame.states rule start exit entries (some next)))
    (entered : network.Reaches rule origin (frame.entry start))
    (ended : through = true → network.Reaches rule origin exit)
    (inside : network.isInRule rule next = true) :
    (∀ id ∈ frame.reached start exit through, network.Reaches rule origin id) ∧
      ((frame.skips || through) = true → network.Reaches rule origin next) := by
  have begun := Frame.reaches_start holds entered
  obtain ⟨atStart, atExit, loop⟩ := Frame.holds_states holds
  cases frame with
  | plain decision =>
      have onward : through = true → network.Reaches rule origin next := fun passed =>
        (ended passed).follow next atExit (by simp [Frame.exitState, Frame.exitTargets]) inside
      refine ⟨?_, by simpa [Frame.skips] using onward⟩
      cases through <;> simp_all [Frame.reached]
  | optional decision greedy =>
      have ended := begun.follow exit atStart
        (by cases greedy <;> simp [Frame.startState, Frame.startTargets])
        (Network.isInRule_of_state? atExit rfl)
      have onward := ended.follow next atExit (by simp [Frame.exitState, Frame.exitTargets]) inside
      simp_all [Frame.reached]
  | star decision greedy entry loopBack loopEnd entryDecision =>
      simp only [Frame.loopStates, Network.holds_cons] at loop
      obtain ⟨atEntry, atLoopEnd, atLoopBack, _⟩ := loop
      have left := entered.follow loopEnd atEntry (by cases greedy <;> simp [forkTargets])
        (Network.isInRule_of_state? atLoopEnd rfl)
      have onward := left.follow next atLoopEnd (by simp) inside
      have back : through = true → network.Reaches rule origin loopBack := fun passed =>
        (ended passed).follow loopBack atExit (by simp [Frame.exitState, Frame.exitTargets])
          (Network.isInRule_of_state? atLoopBack rfl)
      refine ⟨?_, fun _ => onward⟩
      cases through <;> simp_all [Frame.reached, Frame.entry]
  | plus decision greedy loopBack loopEnd loopDecision =>
      simp only [Frame.loopStates, Network.holds_cons] at loop
      obtain ⟨atLoopBack, atLoopEnd, _⟩ := loop
      have back : through = true → network.Reaches rule origin loopBack := fun passed =>
        (ended passed).follow loopBack atExit (by simp [Frame.exitState, Frame.exitTargets])
          (Network.isInRule_of_state? atLoopBack rfl)
      have left : through = true → network.Reaches rule origin loopEnd := fun passed =>
        (back passed).follow loopEnd atLoopBack (by cases greedy <;> simp [forkTargets])
          (Network.isInRule_of_state? atLoopEnd rfl)
      have onward : through = true → network.Reaches rule origin next := fun passed =>
        (left passed).follow next atLoopEnd (by simp) inside
      refine ⟨?_, by simpa [Frame.skips] using onward⟩
      cases through <;> simp_all [Frame.reached]

mutual

theorem Trail.rule_of_mem_layout {id : StateId} {state : State} : ∀ (trail : Trail)
    (next : Option StateId), (id, state) ∈ trail.layout starts rule next → state.rule = rule
  | .done, _, member => by simp [Trail.layout] at member
  | .step source label rest, next, member => by
      simp only [Trail.layout, List.mem_cons, Prod.mk.injEq] at member
      rcases member with ⟨_, rfl⟩ | inside
      · rfl
      · exact rest.rule_of_mem_layout next inside
  | .gap source rest, next, member => by
      simp only [Trail.layout, List.mem_cons, Prod.mk.injEq] at member
      rcases member with ⟨_, rfl⟩ | inside
      · rfl
      · exact rest.rule_of_mem_layout next inside
  | .block frame start exit ways rest, next, member => by
      simp only [Trail.layout, List.mem_append] at member
      rcases member with around | inside | behind
      · simp only [Frame.states, List.mem_cons, Prod.mk.injEq] at around
        rcases around with ⟨_, rfl⟩ | ⟨_, rfl⟩ | loop
        · rfl
        · rfl
        · cases frame <;> simp only [Frame.loopStates] at loop <;> grind
      · exact ways.rule_of_mem_layout exit inside
      · exact rest.rule_of_mem_layout next behind

theorem Ways.rule_of_mem_layout {id : StateId} {state : State} : ∀ (ways : Ways) (exit : StateId),
    (id, state) ∈ ways.layout starts rule exit → state.rule = rule
  | .none, _, member => by simp [Ways.layout] at member
  | .more way rest, exit, member => by
      simp only [Ways.layout, List.mem_append] at member
      exact member.elim (way.rule_of_mem_layout (some exit)) (rest.rule_of_mem_layout exit)

end

theorem Trail.isInRule_of_mem {trail : Trail} {next : Option StateId} {id : StateId}
    (holds : network.Holds (trail.layout starts rule next)) (member : id ∈ trail.ids) :
    network.isInRule rule id = true := by
  rw [← trail.ids_layout starts rule next] at member
  obtain ⟨state, found⟩ := Heap.mem_ids.mp member
  exact Network.isInRule_of_state? (holds id state found) (trail.rule_of_mem_layout next found)

theorem Trail.isInRule_entered {trail : Trail} {next target : StateId}
    (holds : network.Holds (trail.layout starts rule (some next)))
    (inside : network.isInRule rule next = true) (entered : trail.enter (some next) = some target) :
    network.isInRule rule target = true := by
  rcases Trail.entered_reached entered with member | ⟨rfl, _⟩
  · exact Trail.isInRule_of_mem holds (trail.reached_subset member)
  · exact inside

theorem Ways.isInRule_entries {exit id : StateId} (inside : network.isInRule rule exit = true) :
    ∀ (ways : Ways), network.Holds (ways.layout starts rule exit) → id ∈ ways.entries exit →
    network.isInRule rule id = true
  | .none, _, member => by simp [Ways.entries] at member
  | .more way rest, holds, member => by
      simp only [Ways.layout, Network.holds_append] at holds
      simp only [Ways.entries, List.mem_cons] at member
      rcases member with first | later
      · refine Trail.isInRule_entered holds.1 inside ?_
        rw [first]
        cases found : way.first? <;> simp [Trail.enter, found]
      · exact rest.isInRule_entries inside holds.2 later

mutual

/-- A walk that comes to a trail reaches what the trail lists and, if it can, what comes behind. -/
theorem Trail.reaches : ∀ (trail : Trail) (next : StateId),
    network.Holds (trail.layout starts rule (some next)) → network.isInRule rule next = true →
    (∀ id, trail.enter (some next) = some id → network.Reaches rule origin id) →
    (∀ id ∈ trail.reached, network.Reaches rule origin id) ∧
      (trail.passable = true → network.Reaches rule origin next)
  | .done, next, _, _, entered => ⟨by simp [Trail.reached], fun _ => entered next rfl⟩
  | .step source label rest, next, holds, inside, entered => by
      have here := entered source rfl
      simp only [Trail.layout, Network.holds_cons] at holds
      cases call : label.isCall with
      | true => simpa [Trail.reached, call, Trail.passable] using here
      | false =>
          have behind := rest.reaches next holds.2 inside (by
            intro id atRest
            have target := label.target_edge starts call id
            rw [← target]
            refine .next here holds.1 (by simp [atRest]) ?_
            rw [target]
            exact Trail.isInRule_entered holds.2 inside atRest)
          simp only [Trail.reached, call, Trail.passable]
          refine ⟨?_, by simpa using behind.2⟩
          simpa using ⟨here, behind.1⟩
  | .gap source rest, next, _, _, entered => by
      simpa [Trail.reached, Trail.passable] using entered source rfl
  | .block frame start exit ways rest, next, holds, inside, entered => by
      have here := entered (frame.entry start) rfl
      simp only [Trail.layout, Network.holds_append] at holds
      -- The alternatives come first: whether one gets through them decides what is reached around the block.
      have exitInside : network.isInRule rule exit = true :=
        Network.isInRule_of_state? (Frame.holds_states holds.1).2.1 rfl
      have begun := Frame.reaches_start holds.1 here
      have through := ways.reaches exit holds.2.1 exitInside fun id member =>
        Frame.reaches_entries holds.1 begun member (ways.isInRule_entries exitInside holds.2.1 member)
      obtain ⟨behind, atRest⟩ := rest.enter_some next
      have around := Frame.reaches (atRest ▸ holds.1) here through.2
        (Trail.isInRule_entered holds.2.2 inside atRest)
      have onward : (frame.skips || ways.passable) = true →
          (∀ id ∈ rest.reached, network.Reaches rule origin id) ∧
            (rest.passable = true → network.Reaches rule origin next) := fun passed =>
        rest.reaches next holds.2.2 inside fun id atId => by
          rw [atRest] at atId
          cases atId
          exact around.2 passed
      simp only [Trail.reached, List.mem_append, Trail.passable, Bool.and_eq_true]
      refine ⟨?_, fun passed => (onward passed.1).2 passed.2⟩
      rintro id (outer | inWays | inRest)
      · exact around.1 id outer
      · exact through.1 id inWays
      · split at inRest
        · exact (onward ‹_›).1 id inRest
        · simp at inRest

theorem Ways.reaches : ∀ (ways : Ways) (exit : StateId),
    network.Holds (ways.layout starts rule exit) → network.isInRule rule exit = true →
    (∀ id ∈ ways.entries exit, network.Reaches rule origin id) →
    (∀ id ∈ ways.reached, network.Reaches rule origin id) ∧
      (ways.passable = true → network.Reaches rule origin exit)
  | .none, _, _, _, _ => by simp [Ways.reached, Ways.passable]
  | .more way rest, exit, holds, inside, entered => by
      simp only [Ways.layout, Network.holds_append] at holds
      simp only [Ways.entries, List.mem_cons] at entered
      have first := way.reaches exit holds.1 inside (by
        intro id atWay
        refine entered id (Or.inl ?_)
        cases found : way.first? <;> simp_all [Trail.enter])
      have later := rest.reaches exit holds.2 inside fun id member => entered id (Or.inr member)
      simp only [Ways.reached, List.mem_append, Ways.passable, Bool.or_eq_true]
      exact ⟨fun id member => member.elim (first.1 id) (later.1 id),
        fun passed => passed.elim first.2 later.2⟩

end

end Reaching

section Predecessors

variable {network : Network} {starts : Array StateId} {rule : Option Nat}

/-- The states around a block lead to one another, into the alternatives and behind the block. -/
theorem Frame.next_mem {frame : Frame} {start exit id : StateId} {entries : List StateId}
    {next : Option StateId} {state : State} {transition : Transition}
    (member : (id, state) ∈ frame.states rule start exit entries next)
    (leaves : transition ∈ state.transitions) :
    transition.label = .epsilon ∧
      (transition.target ∈ start :: exit :: frame.loopIds ∨ transition.target ∈ entries ∨
        transition.target ∈ next) := by
  cases frame <;>
    simp only [Frame.states, Frame.startState, Frame.startTargets, Frame.exitState, Frame.exitTargets,
      Frame.loopStates, Frame.loopIds, forkTargets] at * <;>
    grind

theorem Trail.entered_mem {trail : Trail} {next : Option StateId} {target : StateId}
    (entered : trail.enter next = some target) :
    trail.first? = some target ∨ trail = .done ∧ next = some target := by
  cases first : trail.first? with
  | none => exact Or.inr ⟨Trail.first?_eq_none.mp first, by simpa [Trail.enter, first] using entered⟩
  | some id => exact Or.inl (by simpa [Trail.enter, first] using entered)

/-- A step leads to where the rest of the trail is entered. -/
theorem Trail.enter_of_leaves {rest : Trail} {label : Label} {next : Option StateId} {transition : Transition}
    (leaves : transition ∈ (rest.enter next).toList.map (label.edge starts)) :
    rest.enter next = some transition.next := by
  obtain ⟨target, entered, rfl⟩ := List.mem_map.mp leaves
  rw [Label.next_edge]
  exact Option.mem_toList.mp entered

theorem Ways.entries_mem {target exit : StateId} : ∀ (ways : Ways), target ∈ ways.entries exit →
    target ∈ ways.ids ∨ target = exit
  | .none, member => by simp [Ways.entries] at member
  | .more way rest, member => by
      simp only [Ways.entries, List.mem_cons, Ways.ids, List.mem_append] at member ⊢
      rcases member with first | later
      · cases found : way.first? with
        | none => exact Or.inr (by simpa [found] using first)
        | some id =>
            have same : target = id := by simpa [found] using first
            exact Or.inl (Or.inl (same ▸ Trail.first?_mem found))
      · rcases rest.entries_mem later with inside | past
        · exact Or.inl (Or.inr inside)
        · exact Or.inr past

mutual

/-- The states of a trail go on inside the trail or behind it. -/
theorem Trail.next_mem {id : StateId} {state : State} {transition : Transition}
    (leaves : transition ∈ state.transitions) : ∀ (trail : Trail) (next : Option StateId),
    (id, state) ∈ trail.layout starts rule next → transition.next ∈ trail.ids ∨ transition.next ∈ next
  | .done, _, member => by simp [Trail.layout] at member
  | .step source label rest, next, member => by
      simp only [Trail.layout, List.mem_cons, Prod.mk.injEq] at member
      rcases member with ⟨_, rfl⟩ | inside
      · rcases Trail.entered_mem (Trail.enter_of_leaves leaves) with first | ⟨_, last⟩
        · exact Or.inl (by simp [Trail.ids, Trail.first?_mem first])
        · exact Or.inr last
      · exact (rest.next_mem leaves next inside).imp_left (by simp +contextual [Trail.ids])
  | .gap source rest, next, member => by
      simp only [Trail.layout, List.mem_cons, Prod.mk.injEq] at member
      rcases member with ⟨_, rfl⟩ | inside
      · simp at leaves
      · exact (rest.next_mem leaves next inside).imp_left (by simp +contextual [Trail.ids])
  | .block frame start exit ways rest, next, member => by
      simp only [Trail.layout, List.mem_append] at member
      simp only [Trail.ids, List.mem_append]
      have exitMember : exit ∈ start :: exit :: frame.loopIds := by simp
      rcases member with around | inside | behind
      · obtain ⟨silent, target⟩ := Frame.next_mem around leaves
        have next : transition.next = transition.target := by simp [Transition.next, silent]
        rw [next]
        rcases target with inside | into | entered
        · exact Or.inl (Or.inl inside)
        · rcases ways.entries_mem into with inside | past
          · exact Or.inl (Or.inr (Or.inl inside))
          · exact Or.inl (Or.inl (past ▸ exitMember))
        · rcases Trail.entered_mem entered with first | ⟨_, rfl⟩
          · exact Or.inl (Or.inr (Or.inr (Trail.first?_mem first)))
          · exact Or.inr rfl
      · rcases ways.next_mem leaves exit inside with inside | past
        · exact Or.inl (Or.inr (Or.inl inside))
        · exact Or.inl (Or.inl (past ▸ exitMember))
      · exact (rest.next_mem leaves next behind).imp_left fun inside => Or.inr (Or.inr inside)

theorem Ways.next_mem {id : StateId} {state : State} {transition : Transition}
    (leaves : transition ∈ state.transitions) : ∀ (ways : Ways) (exit : StateId),
    (id, state) ∈ ways.layout starts rule exit → transition.next ∈ ways.ids ∨ transition.next = exit
  | .none, _, member => by simp [Ways.layout] at member
  | .more way rest, exit, member => by
      simp only [Ways.layout, List.mem_append, Ways.ids] at member ⊢
      rcases member with first | later
      · rcases way.next_mem leaves (some exit) first with inside | past
        · exact Or.inl (Or.inl inside)
        · exact Or.inr (Option.some.inj past).symm
      · rcases rest.next_mem leaves exit later with inside | past
        · exact Or.inl (Or.inr inside)
        · exact Or.inr past

end

mutual

theorem Trail.pairs_mem {first second : StateId} : ∀ (trail : Trail), (first, second) ∈ trail.pairs →
    first ∈ trail.ids ∧ second ∈ trail.ids
  | .done, member => by simp [Trail.pairs] at member
  | .step source label rest, member => by
      simp only [Trail.pairs, List.mem_append, List.mem_map, Option.mem_toList, Prod.mk.injEq] at member
      simp only [Trail.ids, List.mem_cons]
      rcases member with ⟨behind, opens, rfl, rfl⟩ | inside
      · exact ⟨Or.inl rfl, Or.inr (Trail.first?_mem (Trail.first?_of_opening? opens))⟩
      · exact (rest.pairs_mem inside).imp Or.inr Or.inr
  | .gap source rest, member => by
      simp only [Trail.pairs] at member
      simp only [Trail.ids, List.mem_cons]
      exact (rest.pairs_mem member).imp Or.inr Or.inr
  | .block frame start exit ways rest, member => by
      simp only [Trail.pairs, List.mem_append] at member
      simp only [Trail.ids, List.mem_append]
      rcases member with inside | behind
      · exact (ways.pairs_mem inside).imp (Or.inr ∘ Or.inl) (Or.inr ∘ Or.inl)
      · exact (rest.pairs_mem behind).imp (Or.inr ∘ Or.inr) (Or.inr ∘ Or.inr)

theorem Ways.pairs_mem {first second : StateId} : ∀ (ways : Ways), (first, second) ∈ ways.pairs →
    first ∈ ways.ids ∧ second ∈ ways.ids
  | .none, member => by simp [Ways.pairs] at member
  | .more way rest, member => by
      simp only [Ways.pairs, List.mem_append] at member
      simp only [Ways.ids, List.mem_append]
      exact member.elim (fun inside => (way.pairs_mem inside).imp Or.inl Or.inl)
        fun inside => (rest.pairs_mem inside).imp Or.inr Or.inr

end

/-- The second state of a pair is not where a trail begins. -/
theorem Trail.pairs_apart {first second : StateId} {trail : Trail} (unique : trail.ids.Nodup)
    (member : (first, second) ∈ trail.pairs) : trail.first? ≠ some second := by
  cases trail with
  | done => simp [Trail.pairs] at member
  | step source label rest =>
      simp only [Trail.ids, List.nodup_cons] at unique
      simp only [Trail.pairs, List.mem_append, List.mem_map, Option.mem_toList, Prod.mk.injEq] at member
      simp only [Trail.first?, ne_eq, Option.some.injEq]
      rintro rfl
      rcases member with ⟨_, opens, _, rfl⟩ | inside
      · exact unique.1 (Trail.first?_mem (Trail.first?_of_opening? opens))
      · exact unique.1 (rest.pairs_mem inside).2
  | gap source rest =>
      simp only [Trail.ids, List.nodup_cons] at unique
      simp only [Trail.first?, ne_eq, Option.some.injEq]
      rintro rfl
      exact unique.1 (rest.pairs_mem member).2
  | block frame start exit ways rest =>
      obtain ⟨_, _, _, apart, _⟩ := Trail.nodup_block.mp unique
      have outside := apart _ (Trail.entry_mem frame start exit)
      simp only [Trail.pairs, List.mem_append] at member
      simp only [Trail.first?, ne_eq, Option.some.injEq]
      rintro rfl
      exact member.elim (fun inside => outside.1 (ways.pairs_mem inside).2)
        fun inside => outside.2 (rest.pairs_mem inside).2

theorem Ways.pairs_apart {first second exit : StateId} : ∀ (ways : Ways), ways.ids.Nodup →
    exit ∉ ways.ids → (first, second) ∈ ways.pairs → second ∉ ways.entries exit
  | .none, _, _, member => by simp [Ways.pairs] at member
  | .more way rest, unique, fresh, member => by
      obtain ⟨firstUnique, laterUnique, apart⟩ := Ways.nodup_more.mp unique
      simp only [Ways.ids, List.mem_append, not_or] at fresh
      simp only [Ways.pairs, List.mem_append] at member
      simp only [Ways.entries, List.mem_cons, not_or]
      rcases member with inside | inside
      · have mem := (way.pairs_mem inside).2
        refine ⟨?_, fun later => ?_⟩
        · cases found : way.first? with
          | none =>
              rintro rfl
              exact fresh.1 mem
          | some id =>
              exact fun same => Trail.pairs_apart firstUnique inside (by simpa [found] using same.symm)
        · rcases rest.entries_mem later with other | rfl
          · exact apart _ mem other
          · exact fresh.1 mem
      · have mem := (rest.pairs_mem inside).2
        refine ⟨?_, rest.pairs_apart laterUnique fresh.2 inside⟩
        cases found : way.first? with
        | none =>
            rintro rfl
            exact fresh.2 mem
        | some id =>
            rintro rfl
            exact apart _ (Trail.first?_mem found) mem

/-- Nothing in a trail leads to the step that it begins with. -/
theorem Trail.next_ne_opening {trail : Trail} {id next opening : StateId} {state : State}
    {transition : Transition} (unique : trail.ids.Nodup) (fresh : next ∉ trail.ids)
    (opens : trail.opening? = some opening) (member : (id, state) ∈ trail.layout starts rule (some next))
    (leaves : transition ∈ state.transitions) : transition.next ≠ opening := by
  cases trail with
  | step head label last =>
      cases opens
      obtain ⟨headFresh, _⟩ := List.nodup_cons.mp unique
      simp only [Trail.ids, List.mem_cons, not_or] at fresh
      simp only [Trail.layout, List.mem_cons, Prod.mk.injEq] at member
      rintro rfl
      rcases member with ⟨rfl, rfl⟩ | inside
      · rcases Trail.entered_mem (Trail.enter_of_leaves leaves) with found | ⟨_, same⟩
        · exact headFresh (Trail.first?_mem found)
        · exact fresh.1 (Option.some.inj same)
      · rcases last.next_mem leaves (some next) inside with within | past
        · exact headFresh within
        · exact fresh.1 (Option.some.inj past)
  | _ => cases opens

/-- The states around a block do not lead to the second state of a pair in the block or behind it. -/
theorem Frame.next_apart {frame : Frame} {start exit id next first : StateId} {ways : Ways} {rest : Trail}
    {state : State} {transition : Transition} (unique : (Trail.block frame start exit ways rest).ids.Nodup)
    (fresh : next ∉ (Trail.block frame start exit ways rest).ids)
    (around : (id, state) ∈ frame.states rule start exit (ways.entries exit) (rest.enter (some next)))
    (leaves : transition ∈ state.transitions) :
    (first, transition.next) ∉ (Trail.block frame start exit ways rest).pairs := by
  obtain ⟨_, waysUnique, restUnique, apart, between⟩ := Trail.nodup_block.mp unique
  simp only [Trail.ids, List.mem_append, not_or] at fresh
  obtain ⟨silent, target⟩ := Frame.next_mem around leaves
  have direct : transition.next = transition.target := by simp [Transition.next, silent]
  have exitApart := apart exit (by simp)
  rw [direct]
  intro pair
  rcases List.mem_append.mp pair with inWays | inRest
  · have mem := (ways.pairs_mem inWays).2
    rcases target with outer | into | entered
    · exact (apart _ outer).1 mem
    · exact ways.pairs_apart waysUnique exitApart.1 inWays into
    · rcases Trail.entered_mem entered with found | ⟨_, same⟩
      · exact between _ mem (Trail.first?_mem found)
      · exact fresh.2.1 (Option.some.inj same ▸ mem)
  · have mem := (rest.pairs_mem inRest).2
    rcases target with outer | into | entered
    · exact (apart _ outer).2 mem
    · rcases ways.entries_mem into with inside | past
      · exact between _ inside mem
      · exact exitApart.2 (past ▸ mem)
    · rcases Trail.entered_mem entered with found | ⟨_, same⟩
      · exact Trail.pairs_apart restUnique inRest found
      · exact fresh.2.2 (Option.some.inj same ▸ mem)

mutual

/-- The second state of a pair is entered from the first state only. -/
theorem Trail.pairs_lone {id first : StateId} {state : State} {transition : Transition}
    (leaves : transition ∈ state.transitions) : ∀ (trail : Trail) (next : StateId), trail.ids.Nodup →
    next ∉ trail.ids → (id, state) ∈ trail.layout starts rule (some next) →
    (first, transition.next) ∈ trail.pairs → id = first
  | .done, _, _, _, member, _ => by simp [Trail.layout] at member
  | .step source label rest, next, unique, fresh, member, pair => by
      simp only [Trail.ids, List.nodup_cons, List.mem_cons, not_or] at unique fresh
      simp only [Trail.layout, List.mem_cons, Prod.mk.injEq] at member
      simp only [Trail.pairs, List.mem_append, List.mem_map, Option.mem_toList, Prod.mk.injEq] at pair
      rcases member with ⟨rfl, rfl⟩ | inside
      · rcases pair with ⟨_, _, rfl, _⟩ | later
        · rfl
        · rcases Trail.entered_mem (Trail.enter_of_leaves leaves) with found | ⟨_, same⟩
          · exact absurd found (Trail.pairs_apart unique.2 later)
          · exact absurd (Option.some.inj same ▸ (rest.pairs_mem later).2) fresh.2
      · rcases pair with ⟨behind, opens, rfl, same⟩ | later
        · exact absurd same.symm (Trail.next_ne_opening unique.2 fresh.2 opens inside leaves)
        · exact rest.pairs_lone leaves next unique.2 fresh.2 inside later
  | .gap source rest, next, unique, fresh, member, pair => by
      simp only [Trail.ids, List.nodup_cons, List.mem_cons, not_or] at unique fresh
      simp only [Trail.layout, List.mem_cons, Prod.mk.injEq] at member
      rcases member with ⟨rfl, rfl⟩ | inside
      · simp at leaves
      · exact rest.pairs_lone leaves next unique.2 fresh.2 inside pair
  | .block frame start exit ways rest, next, unique, fresh, member, pair => by
      obtain ⟨_, waysUnique, restUnique, apart, between⟩ := Trail.nodup_block.mp unique
      have exitApart := apart exit (by simp)
      simp only [Trail.layout, List.mem_append] at member
      rcases member with around | inside | behind
      · exact absurd pair (Frame.next_apart unique fresh around leaves)
      · -- an alternative ends at the exit of the block, which no pair has
        rcases List.mem_append.mp pair with inWays | inRest
        · exact ways.pairs_lone leaves exit waysUnique exitApart.1 inside inWays
        · have mem := (rest.pairs_mem inRest).2
          rcases ways.next_mem leaves exit inside with within | past
          · exact absurd mem (between _ within)
          · exact absurd (past ▸ mem) exitApart.2
      · simp only [Trail.ids, List.mem_append, not_or] at fresh
        rcases List.mem_append.mp pair with inWays | inRest
        · have mem := (ways.pairs_mem inWays).2
          rcases rest.next_mem leaves (some next) behind with within | past
          · exact absurd within (between _ mem)
          · exact absurd (Option.some.inj past ▸ mem) fresh.2.1
        · exact rest.pairs_lone leaves next restUnique fresh.2.2 behind inRest

theorem Ways.pairs_lone {id first : StateId} {state : State} {transition : Transition}
    (leaves : transition ∈ state.transitions) : ∀ (ways : Ways) (exit : StateId), ways.ids.Nodup →
    exit ∉ ways.ids → (id, state) ∈ ways.layout starts rule exit →
    (first, transition.next) ∈ ways.pairs → id = first
  | .none, _, _, _, member, _ => by simp [Ways.layout] at member
  | .more way rest, exit, unique, fresh, member, pair => by
      obtain ⟨firstUnique, laterUnique, apart⟩ := Ways.nodup_more.mp unique
      simp only [Ways.ids, List.mem_append, not_or] at fresh
      simp only [Ways.layout, List.mem_append] at member
      rcases member with inside | inside
      · rcases List.mem_append.mp pair with here | later
        · exact way.pairs_lone leaves exit firstUnique fresh.1 inside here
        · have mem := (rest.pairs_mem later).2
          rcases way.next_mem leaves (some exit) inside with within | past
          · exact absurd mem (apart _ within)
          · exact absurd (Option.some.inj past ▸ mem) fresh.2
      · rcases List.mem_append.mp pair with here | later
        · have mem := (way.pairs_mem here).2
          rcases rest.next_mem leaves exit inside with within | past
          · exact absurd within (apart _ mem)
          · exact absurd (past ▸ mem) fresh.1
        · exact rest.pairs_lone leaves exit laterUnique fresh.2 inside later

end

mutual

/-- A basic state with a transition behind such a state makes a pair with it. -/
theorem Trail.mem_pairs {id : StateId} {transition : Transition}
    (only : network.onlyTransition? id = some transition)
    (behind : (network.onlyTransition? transition.next).isSome) : ∀ (trail : Trail) (next : StateId),
    network.Holds (trail.layout starts rule (some next)) → network.onlyTransition? next = none →
    id ∈ trail.ids → (id, transition.next) ∈ trail.pairs
  | .done, _, _, _, member => by simp [Trail.ids] at member
  | .step source label rest, next, holds, blockEnd, member => by
      have onlySource := Trail.onlyTransition?_first source holds rfl
      simp only [Trail.layout, Network.holds_cons] at holds
      simp only [Trail.ids, List.mem_cons] at member
      simp only [Trail.pairs, List.mem_append]
      rcases member with rfl | inside
      · left
        rw [onlySource] at only
        simp only [Option.map_eq_some_iff] at only
        obtain ⟨target, entered, rfl⟩ := only
        rw [Label.next_edge] at behind ⊢
        rcases Trail.entered_mem entered with first | ⟨_, same⟩
        · have onlyBehind := Trail.onlyTransition?_first target holds.2 first
          cases rest with
          | step head second last =>
              cases first
              simp [Trail.opening?]
          | _ => simp_all
        · cases same
          simp [blockEnd] at behind
      · exact Or.inr (rest.mem_pairs only behind next holds.2 blockEnd inside)
  | .gap source rest, next, holds, blockEnd, member => by
      have onlySource := Trail.onlyTransition?_first source holds rfl
      simp only [Trail.layout, Network.holds_cons] at holds
      simp only [Trail.ids, List.mem_cons] at member
      rcases member with rfl | inside
      · simp [onlySource] at only
      · exact rest.mem_pairs only behind next holds.2 blockEnd inside
  | .block frame start exit ways rest, next, holds, blockEnd, member => by
      simp only [Trail.layout, Network.holds_append] at holds
      simp only [Trail.ids, List.mem_append] at member
      simp only [Trail.pairs, List.mem_append]
      rcases member with outer | inside | inside
      · obtain ⟨state, found⟩ := Heap.mem_ids.mp
          (Frame.ids_states rule start exit (ways.entries exit) (rest.enter (some next)) frame ▸ outer)
        rw [Network.onlyTransition?_of_kind (holds.1 id state found) (Frame.kind_ne_basic found)] at only
        cases only
      · have innerOnly : network.onlyTransition? exit = none :=
          Network.onlyTransition?_of_kind (Frame.holds_states holds.1).2.1 (by simp [Frame.exitState])
        exact Or.inl (ways.mem_pairs only behind exit holds.2.1 innerOnly inside)
      · exact Or.inr (rest.mem_pairs only behind next holds.2.2 blockEnd inside)

theorem Ways.mem_pairs {id : StateId} {transition : Transition}
    (only : network.onlyTransition? id = some transition)
    (behind : (network.onlyTransition? transition.next).isSome) : ∀ (ways : Ways) (exit : StateId),
    network.Holds (ways.layout starts rule exit) → network.onlyTransition? exit = none →
    id ∈ ways.ids → (id, transition.next) ∈ ways.pairs
  | .none, _, _, _, member => by simp [Ways.ids] at member
  | .more way rest, exit, holds, blockEnd, member => by
      simp only [Ways.layout, Network.holds_append] at holds
      simp only [Ways.ids, List.mem_append] at member
      simp only [Ways.pairs, List.mem_append]
      exact member.imp (way.mem_pairs only behind exit holds.1 blockEnd)
        (rest.mem_pairs only behind exit holds.2 blockEnd)

end

end Predecessors

namespace Heap

@[simp] theorem takeOut_nil (tails : List Tail) : takeOut tails [] = [] := rfl

@[simp] theorem takeOut_none (heap : Heap) : takeOut [] heap = heap := by
  simp [takeOut]

@[simp] theorem takeOut_append (tails : List Tail) (left right : Heap) :
    takeOut tails (left ++ right) = takeOut tails left ++ takeOut tails right := by
  simp [takeOut]

theorem mem_takeOut {tails : List Tail} {heap : Heap} {id : StateId} {state : State} :
    (id, state) ∈ heap.takeOut tails ↔ id ∉ tails.map Tail.behind ∧ ∃ old, (id, old) ∈ heap ∧
      state = match tails.find? fun tail => tail.source == id with
        | some tail =>
            { old with transitions := old.transitions.map fun transition => transition.redirect tail.exit }
        | none => old := by
  simp only [takeOut, List.mem_filterMap]
  constructor
  · rintro ⟨⟨other, old⟩, member, kept⟩
    split at kept
    · cases kept
    · rename_i stays
      split at kept
      · rename_i tail found
        cases kept
        exact ⟨stays, old, member, by rw [found]⟩
      · rename_i found
        cases kept
        exact ⟨stays, state, member, by rw [found]⟩
  · rintro ⟨stays, old, member, rfl⟩
    refine ⟨(id, old), member, ?_⟩
    simp only [stays, ↓reduceIte]
    cases tails.find? fun tail => tail.source == id <;> rfl

theorem takeOut_congr {tails others : List Tail} {heap : Heap}
    (behind : ∀ id ∈ heap.ids, id ∈ tails.map Tail.behind ↔ id ∈ others.map Tail.behind)
    (source : ∀ id ∈ heap.ids, (tails.find? fun tail => tail.source == id) =
      others.find? fun tail => tail.source == id) :
    heap.takeOut tails = heap.takeOut others := by
  apply List.filterMap_congr
  intro entry member
  rw [source entry.1 (mem_ids_of_mem member)]
  simp only [behind entry.1 (mem_ids_of_mem member)]

/-- Tails that lie elsewhere do not count. -/
theorem takeOut_left {tails others : List Tail} {heap : Heap}
    (elsewhere : ∀ tail ∈ others, tail.source ∉ heap.ids ∧ tail.behind ∉ heap.ids) :
    heap.takeOut (tails ++ others) = heap.takeOut tails := by
  apply takeOut_congr
  · intro id member
    have absent : id ∉ others.map Tail.behind := by
      simp only [List.mem_map, not_exists, not_and]
      rintro tail inside rfl
      exact (elsewhere tail inside).2 member
    simp only [List.map_append, List.mem_append, absent, or_false]
  · intro id member
    have absent : (others.find? fun tail => tail.source == id) = none := by
      simp only [List.find?_eq_none, beq_iff_eq]
      rintro tail inside rfl
      exact (elsewhere tail inside).1 member
    simp [absent]

theorem takeOut_right {tails others : List Tail} {heap : Heap}
    (elsewhere : ∀ tail ∈ tails, tail.source ∉ heap.ids ∧ tail.behind ∉ heap.ids) :
    heap.takeOut (tails ++ others) = heap.takeOut others := by
  apply takeOut_congr
  · intro id member
    have absent : id ∉ tails.map Tail.behind := by
      simp only [List.mem_map, not_exists, not_and]
      rintro tail inside rfl
      exact (elsewhere tail inside).2 member
    simp only [List.map_append, List.mem_append, absent, false_or]
  · intro id member
    have absent : (tails.find? fun tail => tail.source == id) = none := by
      simp only [List.find?_eq_none, beq_iff_eq]
      rintro tail inside rfl
      exact (elsewhere tail inside).1 member
    simp [absent]

theorem takeOut_cons {tails : List Tail} {entry : StateId × State} {heap : Heap}
    (elsewhere : ∀ tail ∈ tails, tail.source ≠ entry.1 ∧ tail.behind ≠ entry.1) :
    takeOut tails (entry :: heap) = entry :: takeOut tails heap := by
  have kept : entry.1 ∉ tails.map Tail.behind := by
    simp only [List.mem_map, not_exists, not_and]
    exact fun tail inside => (elsewhere tail inside).2
  have same : (tails.find? fun tail => tail.source == entry.1) = none := by
    simp only [List.find?_eq_none, beq_iff_eq]
    exact fun tail inside => (elsewhere tail inside).1
  simp only [takeOut, List.filterMap_cons, kept, ↓reduceIte, same]

theorem takeOut_elsewhere {tails : List Tail} {heap : Heap}
    (elsewhere : ∀ tail ∈ tails, tail.source ∉ heap.ids ∧ tail.behind ∉ heap.ids) :
    heap.takeOut tails = heap := by
  rw [← List.append_nil tails, takeOut_right elsewhere, takeOut_none]

end Heap

@[simp] theorem Trail.first?_strip (other : Bool) (trail : Trail) :
    (trail.strip other).first? = trail.first? := by
  cases trail with
  | step source label rest => simp only [Trail.strip]; split <;> [rfl; split <;> rfl]
  | _ => rfl

@[simp] theorem Trail.enter_strip (other : Bool) (trail : Trail) (next : Option StateId) :
    (trail.strip other).enter next = trail.enter next := by
  simp [Trail.enter]

@[simp] theorem Ways.entries_strip (other : Bool) (exit : StateId) : ∀ (ways : Ways),
    (ways.strip other).entries exit = ways.entries exit
  | .none => rfl
  | .more way rest => by simp [Ways.strip, Ways.entries, rest.entries_strip other exit]

mutual

/-- The layout of a stripped trail is the layout of the trail without the tails. -/
theorem Trail.layout_strip {starts : Array StateId} {rule : Option Nat} (other : Bool) :
    ∀ (trail : Trail) (next : StateId), trail.ids.Nodup →
    (trail.strip other).layout starts rule (some next) =
      (trail.layout starts rule (some next)).takeOut (trail.tails other next)
  | .done, _, _ => rfl
  | .step source label rest, next, unique => by
      simp only [Trail.ids, List.nodup_cons] at unique
      simp only [Trail.strip, Trail.tails]
      by_cases strips : (other && rest.passes) = true
      · obtain ⟨behind, second, rfl, passes⟩ :=
          Trail.passes_eq_true.mp (Bool.and_eq_true_iff.mp strips).2
        have different : source ≠ behind := by simpa [Trail.ids] using unique.1
        simp [strips, Trail.layout, Trail.first?, Trail.enter, Heap.takeOut, different]
      · simp only [strips, Bool.false_eq_true, ↓reduceIte]
        split
        · simp
        · rw [Trail.layout, Trail.enter_strip, rest.layout_strip other next unique.2, Trail.layout,
            Heap.takeOut_cons]
          intro tail inside
          have mem := rest.mem_of_mem_tails next inside
          exact ⟨ne_of_mem_of_not_mem mem.1 unique.1, ne_of_mem_of_not_mem mem.2 unique.1⟩
  | .gap source rest, next, _ => by simp [Trail.strip, Trail.tails]
  | .block frame start exit ways rest, next, unique => by
      obtain ⟨_, waysUnique, restUnique, apart, between⟩ := Trail.nodup_block.mp unique
      have inWays : ∀ tail ∈ ways.tails (!frame.isStar) exit, tail.source ∈ ways.ids ∧
          tail.behind ∈ ways.ids := fun tail => ways.mem_of_mem_tails exit
      have inRest : ∀ tail ∈ if frame.skips || ways.passable then rest.tails other next else [],
          tail.source ∈ rest.ids ∧ tail.behind ∈ rest.ids := by
        intro tail inside
        split at inside
        · exact rest.mem_of_mem_tails next inside
        · simp at inside
      have behind : (if frame.skips || ways.passable then rest.strip other else rest).layout starts rule
          (some next) = (rest.layout starts rule (some next)).takeOut
            (if frame.skips || ways.passable then rest.tails other next else []) := by
        split
        · exact rest.layout_strip other next restUnique
        · simp
      have entered : (if frame.skips || ways.passable then rest.strip other else rest).enter (some next) =
          rest.enter (some next) := by
        split <;> simp
      rw [Trail.strip, Trail.layout, entered, Ways.entries_strip, behind,
        ways.layout_strip (!frame.isStar) exit waysUnique, Trail.layout, Trail.tails,
        Heap.takeOut_append, Heap.takeOut_append]
      congr 1
      -- Each of the three parts is taken out of by its own tails only, as the ids of the parts are apart.
      · apply (Heap.takeOut_elsewhere _).symm
        intro tail inside
        rw [Frame.ids_states]
        rcases List.mem_append.mp inside with here | here
        · exact ⟨fun outer => (apart _ outer).1 (inWays tail here).1,
            fun outer => (apart _ outer).1 (inWays tail here).2⟩
        · exact ⟨fun outer => (apart _ outer).2 (inRest tail here).1,
            fun outer => (apart _ outer).2 (inRest tail here).2⟩
      · congr 1
        · apply (Heap.takeOut_left _).symm
          intro tail here
          rw [Ways.ids_layout]
          exact ⟨fun inside => between _ inside (inRest tail here).1,
            fun inside => between _ inside (inRest tail here).2⟩
        · apply (Heap.takeOut_right _).symm
          intro tail here
          rw [Trail.ids_layout]
          exact ⟨between _ (inWays tail here).1, between _ (inWays tail here).2⟩

theorem Ways.layout_strip {starts : Array StateId} {rule : Option Nat} (other : Bool) :
    ∀ (ways : Ways) (exit : StateId), ways.ids.Nodup →
    (ways.strip other).layout starts rule exit =
      (ways.layout starts rule exit).takeOut (ways.tails other exit)
  | .none, _, _ => rfl
  | .more way rest, exit, unique => by
      obtain ⟨firstUnique, laterUnique, apart⟩ := Ways.nodup_more.mp unique
      rw [Ways.strip, Ways.layout, Ways.layout, Ways.tails, Heap.takeOut_append,
        way.layout_strip other exit firstUnique, rest.layout_strip other exit laterUnique]
      congr 1
      · apply (Heap.takeOut_left _).symm
        intro tail inside
        have mem := rest.mem_of_mem_tails exit inside
        rw [Trail.ids_layout]
        exact ⟨fun other => apart _ other mem.1, fun other => apart _ other mem.2⟩
      · apply (Heap.takeOut_right _).symm
        intro tail inside
        have mem := way.mem_of_mem_tails exit inside
        rw [Ways.ids_layout]
        exact ⟨apart _ mem.1, apart _ mem.2⟩

end

section Calls

variable {starts : Array StateId} {rule : Option Nat}

theorem Label.call_edge {label : Label} (starts : Array StateId) (next : StateId) (call : label.isCall = true) :
    ∃ index, label.callee? = some index ∧ (label.edge starts next).label.callee? = some index ∧
      (label.edge starts next).target = starts[index]?.getD 0 := by
  cases label <;> simp_all [Label.isCall, Label.callee?, Label.edge]

mutual

theorem Trail.call_target {id : StateId} {state : State} {transition : Transition}
    (leaves : transition ∈ state.transitions) (call : transition.label.isCall = true) :
    ∀ (trail : Trail) (next : Option StateId), (id, state) ∈ trail.layout starts rule next →
    ∃ label index, label ∈ trail.labels ∧ label.callee? = some index ∧
      transition.label.callee? = some index ∧ transition.target = starts[index]?.getD 0
  | .done, _, member => by simp [Trail.layout] at member
  | .step source label rest, next, member => by
      simp only [Trail.layout, List.mem_cons, Prod.mk.injEq] at member
      rcases member with ⟨_, rfl⟩ | inside
      · simp only [List.mem_map, Option.mem_toList] at leaves
        obtain ⟨target, _, rfl⟩ := leaves
        rw [Label.isCall_edge] at call
        obtain ⟨index, callee, found⟩ := Label.call_edge starts target call
        exact ⟨label, index, by simp [Trail.labels], callee, found⟩
      · obtain ⟨other, index, member, found⟩ := rest.call_target leaves call next inside
        exact ⟨other, index, by simp [Trail.labels, member], found⟩
  | .gap source rest, next, member => by
      simp only [Trail.layout, List.mem_cons, Prod.mk.injEq] at member
      rcases member with ⟨_, rfl⟩ | inside
      · simp at leaves
      · exact rest.call_target leaves call next inside
  | .block frame start exit ways rest, next, member => by
      simp only [Trail.layout, List.mem_append] at member
      rcases member with around | inside | behind
      · rw [(Frame.next_mem around leaves).1] at call
        cases call
      · obtain ⟨other, index, member, found⟩ := ways.call_target leaves call exit inside
        exact ⟨other, index, by simp [Trail.labels, member], found⟩
      · obtain ⟨other, index, member, found⟩ := rest.call_target leaves call next behind
        exact ⟨other, index, by simp [Trail.labels, member], found⟩

theorem Ways.call_target {id : StateId} {state : State} {transition : Transition}
    (leaves : transition ∈ state.transitions) (call : transition.label.isCall = true) :
    ∀ (ways : Ways) (exit : StateId), (id, state) ∈ ways.layout starts rule exit →
    ∃ label index, label ∈ ways.labels ∧ label.callee? = some index ∧
      transition.label.callee? = some index ∧ transition.target = starts[index]?.getD 0
  | .none, _, member => by simp [Ways.layout] at member
  | .more way rest, exit, member => by
      simp only [Ways.layout, List.mem_append] at member
      rcases member with inside | inside
      · obtain ⟨other, index, member, found⟩ := way.call_target leaves call (some exit) inside
        exact ⟨other, index, by simp [Ways.labels, member], found⟩
      · obtain ⟨other, index, member, found⟩ := rest.call_target leaves call exit inside
        exact ⟨other, index, by simp [Ways.labels, member], found⟩

end

end Calls

/-- The rules that are called have numbers below `count`. -/
def Trail.CallsBelow (count : Nat) (trail : Trail) : Prop :=
  ∀ label ∈ trail.labels, ∀ index, label.callee? = some index → index < count

/-- The starts of all rules are there, and that of the given rule leads nowhere yet. -/
def Network.Moored (network : Network) (rule : Option Nat) : Prop :=
  ∀ (index : Nat) (id : StateId), network.ruleStarts[index]? = some id →
    ∃ state stop leftRecursive, network.state? id = some state ∧
      state.kind = .ruleStart stop leftRecursive ∧ (state.rule = rule → state.transitions = [])

/-- The trail leads to the end of a block that leads nowhere yet. -/
structure Network.Ends (network : Network) (rule : Option Nat) (trail : Trail) (exit : StateId) : Prop where
  holds : network.Holds (trail.layout network.ruleStarts rule (some exit))
  unique : trail.ids.Nodup
  fresh : exit ∉ trail.ids
  callsBelow : trail.CallsBelow network.ruleStarts.size
  atExit : ∃ opening, network.state? exit = some { rule, kind := .blockEnd opening }
  moored : network.Moored rule

namespace Network.Ends

variable {network : Network} {rule : Option Nat} {trail : Trail} {exit origin : StateId}

theorem mem_layout (ends : network.Ends rule trail exit) {id : StateId} (member : id ∈ trail.ids)
    {state : State} (found : network.state? id = some state) :
    (id, state) ∈ trail.layout network.ruleStarts rule (some exit) := by
  rw [← trail.ids_layout network.ruleStarts rule (some exit)] at member
  obtain ⟨other, inside⟩ := Heap.mem_ids.mp member
  have same := ends.holds id other inside
  rw [found] at same
  cases same
  exact inside

theorem onlyTransition?_exit (ends : network.Ends rule trail exit) :
    network.onlyTransition? exit = none := by
  obtain ⟨opening, found⟩ := ends.atExit
  exact Network.onlyTransition?_of_kind found (by simp)

theorem call_start (ends : network.Ends rule trail exit) {id : StateId} (member : id ∈ trail.ids)
    {state : State} (found : network.state? id = some state) {transition : Transition}
    (leaves : transition ∈ state.transitions) (call : transition.label.isCall = true) :
    ∃ start stop leftRecursive, network.state? transition.target = some start ∧
      start.kind = .ruleStart stop leftRecursive ∧ (start.rule = rule → start.transitions = []) := by
  obtain ⟨label, index, onTrail, callee, _, target⟩ :=
    trail.call_target leaves call (some exit) (ends.mem_layout member found)
  have bound := ends.callsBelow label onTrail index callee
  apply ends.moored index
  simp [target, bound]

/-- What the walk reaches: states of the trail, the end of the block and starts of rules that lead
nowhere. -/
theorem mem_of_reaches (ends : network.Ends rule trail exit) (first : trail.first? = some origin)
    {id : StateId} (reaches : network.Reaches rule origin id) :
    id ∈ trail.reached ∨ ∃ state, network.state? id = some state ∧ state.kind ≠ .basic ∧
      state.transitions = [] := by
  induction reaches with
  | start inside => exact Or.inl (Trail.first?_reached first)
  | @next id state transition _ found leaves inside ih =>
      rcases ih with member | ⟨other, again, _, empty⟩
      · rcases trail.target_reached found leaves exit ends.holds member with call | onward | ⟨past, _⟩
        · obtain ⟨start, stop, leftRecursive, atTarget, kind, silent⟩ :=
            ends.call_start (trail.reached_subset member) found leaves call
          have sameRule : start.rule = rule := by simpa [Network.isInRule, atTarget] using inside
          exact Or.inr ⟨start, atTarget, by simp [kind], silent sameRule⟩
        · exact Or.inl onward
        · obtain ⟨opening, atExit⟩ := ends.atExit
          rw [past]
          exact Or.inr ⟨_, atExit, by simp, rfl⟩
      · rw [found] at again
        cases again
        simp [empty] at leaves

theorem mem_of_only (ends : network.Ends rule trail exit) (first : trail.first? = some origin)
    {id : StateId} (reaches : network.Reaches rule origin id) {transition : Transition}
    (only : network.onlyTransition? id = some transition) : id ∈ trail.reached := by
  rcases ends.mem_of_reaches first reaches with member | ⟨state, found, kind, _⟩
  · exact member
  · rw [Network.onlyTransition?_of_kind found kind] at only
    cases only

theorem mem_pairs (ends : network.Ends rule trail exit) (first : trail.first? = some origin)
    {id : StateId} (reaches : network.Reaches rule origin id) {transition : Transition}
    (only : network.onlyTransition? id = some transition)
    (behind : (network.onlyTransition? transition.next).isSome = true) :
    (id, transition.next) ∈ trail.pairs :=
  trail.mem_pairs only behind exit ends.holds ends.onlyTransition?_exit
    (trail.reached_subset (ends.mem_of_only first reaches only))

theorem tame (ends : network.Ends rule trail exit) (first : trail.first? = some origin) :
    network.Tame rule origin where
  calls := by
    intro id transition reaches only call
    obtain ⟨state, found, _, single⟩ := Network.onlyTransition?_eq_some.mp only
    have member := trail.reached_subset (ends.mem_of_only first reaches only)
    obtain ⟨start, _, _, atTarget, kind, _⟩ :=
      ends.call_start member found (by simp [single]) call
    exact Network.onlyTransition?_of_kind atTarget (by simp [kind])
  callsBehind := by
    intro id transition tail reaches only onlyBehind call
    have member := (trail.pairs_mem (ends.mem_pairs first reaches only (by simp [onlyBehind]))).2
    obtain ⟨state, found, _, single⟩ := Network.onlyTransition?_eq_some.mp onlyBehind
    obtain ⟨start, _, _, atTarget, kind, _⟩ :=
      ends.call_start member found (by simp [single]) call
    simp [Network.endsOtherBlock, atTarget, kind]
  apart := by
    intro id transition reaches only behind same
    rw [← same] at first
    exact Trail.pairs_apart ends.unique (ends.mem_pairs (same ▸ first) reaches only behind) first
  sameRule := by
    intro id transition reaches only behind
    exact Trail.isInRule_of_mem ends.holds (trail.pairs_mem (ends.mem_pairs first reaches only behind)).2
  lone := by
    intro id transition source reaches only behind fromSource leads
    have pair := ends.mem_pairs first reaches only behind
    obtain ⟨state, other, found, leaves, arrives⟩ := leads
    rcases ends.mem_of_reaches first fromSource with member | ⟨_, again, _, empty⟩
    · have member := trail.reached_subset member
      have arrives : other.next = transition.next := by
        rcases arrives with target | next
        · cases call : other.label.isCall with
          | true =>
              obtain ⟨start, _, _, atTarget, kind, _⟩ := ends.call_start member found leaves call
              rw [target] at atTarget
              simp [Network.onlyTransition?_of_kind atTarget (by simp [kind])] at behind
          | false => rw [Transition.next_of_not_call call, target]
        · exact next
      exact trail.pairs_lone leaves exit ends.unique ends.fresh (ends.mem_layout member found)
        (arrives ▸ pair)
    · rw [found] at again
      cases again
      simp [empty] at leaves

/-- The walk takes out the tails that a pass takes out of the trail. -/
theorem mem_tails_iff (ends : network.Ends rule trail exit) (first : trail.first? = some origin)
    {id behind inner : StateId} :
    network.Reaches rule origin id ∧ network.tail? id = some (behind, inner) ↔
      ⟨id, behind, inner⟩ ∈ trail.tails (network.endsOtherBlock exit) exit := by
  have inside : network.isInRule rule exit = true := by
    obtain ⟨opening, atExit⟩ := ends.atExit
    exact Network.isInRule_of_state? atExit rfl
  have iff : id ∈ trail.reached → (network.tail? id = some (behind, inner) ↔
      ⟨id, behind, inner⟩ ∈ trail.tails (network.endsOtherBlock exit) exit) :=
    trail.tail?_iff exit ends.holds ends.unique ends.onlyTransition?_exit rfl
  constructor
  · rintro ⟨reaches, tail⟩
    obtain ⟨_, _, only, _⟩ := Network.tail?_eq_some.mp tail
    exact (iff (ends.mem_of_only first reaches only)).mp tail
  · intro member
    have reached := (trail.mem_tails exit member).1
    have all : (∀ id ∈ trail.reached, network.Reaches rule origin id) ∧ _ :=
      trail.reaches exit ends.holds inside fun id entered => by
        rw [Trail.enter_of_first? first] at entered
        cases entered
        exact .start (Trail.isInRule_of_mem ends.holds (Trail.first?_mem first))
    exact ⟨all.1 id reached, (iff reached).mpr member⟩

/-- Stripping the tails of an alternative strips its trail and leaves the rest of the network alone. -/
theorem state?_stripTails (ends : network.Ends rule trail exit) (first : trail.first? = some origin) :
    (∀ id ∈ trail.ids, ∀ state, (network.stripTails origin).state? id = some state ↔
      (id, state) ∈ (trail.strip (network.endsOtherBlock exit)).layout network.ruleStarts rule (some exit)) ∧
    (∀ id ∉ trail.ids, (network.stripTails origin).state? id = network.state? id) ∧
    network.stripTails origin = { network with states := (network.stripTails origin).states } ∧
    (network.stripTails origin).nextId = network.nextId := by
  have member := Trail.first?_mem first
  rw [← trail.ids_layout network.ruleStarts rule (some exit)] at member
  obtain ⟨state, inLayout⟩ := Heap.mem_ids.mp member
  have sameRule := trail.rule_of_mem_layout (some exit) inLayout
  have stripped := Network.stripped_stripTails (ends.holds origin state inLayout)
    (by rw [sameRule]; exact ends.tame first)
  rw [sameRule] at stripped
  refine ⟨?_, ?_, stripped.others, stripped.size⟩
  -- A state of the trail is taken out, redirected or kept, and on both sides it is the tails that say which.
  · intro id member state
    rw [trail.layout_strip (network.endsOtherBlock exit) exit ends.unique, Heap.mem_takeOut]
    rw [← trail.ids_layout network.ruleStarts rule (some exit)] at member
    obtain ⟨old, inside⟩ := Heap.mem_ids.mp member
    have found := ends.holds id old inside
    have unique : ∀ other, (id, other) ∈ trail.layout network.ruleStarts rule (some exit) ↔ other = old := by
      refine fun other => ⟨fun again => ?_, fun same => same ▸ inside⟩
      have same := ends.holds id other again
      rw [found] at same
      exact (Option.some.inj same).symm
    simp only [unique, exists_eq_left]
    by_cases gone : id ∈ (trail.tails (network.endsOtherBlock exit) exit).map Tail.behind
    · obtain ⟨tail, onTrail, rfl⟩ := List.mem_map.mp gone
      obtain ⟨reaches, atSource⟩ := (ends.mem_tails_iff first).mpr onTrail
      simp [gone, stripped.removed _ _ _ reaches atSource]
    · simp only [gone, not_false_eq_true, true_and]
      cases changes : (trail.tails (network.endsOtherBlock exit) exit).find? fun tail => tail.source == id with
      | some tail =>
          obtain rfl : tail.source = id := by simpa using List.find?_some changes
          obtain ⟨reaches, atSource⟩ := (ends.mem_tails_iff first).mpr (List.mem_of_find?_eq_some changes)
          rw [stripped.redirected _ _ _ old reaches atSource found]
          simp [eq_comm]
      | none =>
          have kept : (network.stripTails origin).state? id = network.state? id := by
            apply stripped.kept
            · intro source inner reaches tail
              exact gone (List.mem_map_of_mem ((ends.mem_tails_iff first).mp ⟨reaches, tail⟩))
            · intro reaches
              cases tail : network.tail? id with
              | none => rfl
              | some behind =>
                  have onTrail := (ends.mem_tails_iff first).mp ⟨reaches, tail⟩
                  simpa using List.find?_eq_none.mp changes _ onTrail
          simp [kept, found, eq_comm]
  · intro id absent
    apply stripped.kept
    · intro source inner reaches tail
      have onTrail := (ends.mem_tails_iff first).mp ⟨reaches, tail⟩
      exact absent (trail.mem_of_mem_tails exit onTrail).2
    · intro reaches
      cases tail : network.tail? id with
      | none => rfl
      | some found =>
          have onTrail := (ends.mem_tails_iff first).mp ⟨reaches, tail⟩
          exact absurd (trail.mem_of_mem_tails exit onTrail).1 absent

end Network.Ends

end GrammarNetwork
