import Mathlib.Logic.Function.Iterate
import GrammarNetwork.Network.Walk
import GrammarNetwork.Proofs.Stripping

/-! The states that a walk in breadth-first order visits: those that can be reached, each of them once. The walk
is also taken round by round, with a queue in which a state may stand many times. -/

namespace GrammarNetwork

namespace Network

section Visits

variable {next : StateId → List StateId} {remaining : StateSet} {queue : List StateId} {id : StateId}

@[simp] theorem visitFrom_nil (next : StateId → List StateId) (remaining : StateSet) :
    visitFrom next remaining [] = [] := by
  rw [visitFrom.eq_def]
  rfl

theorem visitFrom_cons_of_contains (fresh : remaining.contains id = true) :
    visitFrom next remaining (id :: queue) = id :: visitFrom next (remaining.erase id) (queue ++ next id) := by
  have front : (id :: queue).dropWhile (fun id => !remaining.contains id) = id :: queue := by simp [fresh]
  rw [visitFrom.eq_def]
  split
  · simp_all
  · simp_all

theorem visitFrom_cons_of_not_contains (stale : remaining.contains id = false) :
    visitFrom next remaining (id :: queue) = visitFrom next remaining queue := by
  have front : (id :: queue).dropWhile (fun id => !remaining.contains id) =
      queue.dropWhile (fun id => !remaining.contains id) := by simp [stale]
  rw [visitFrom.eq_def, visitFrom.eq_def next remaining queue, front]

/-- A walk is taken apart by its queue: nothing is left, the first state is visited, or it is passed over. -/
theorem visitFrom_induction {motive : StateSet → List StateId → Prop} (next : StateId → List StateId)
    (done : ∀ remaining, motive remaining [])
    (visit : ∀ remaining id queue, remaining.contains id = true →
      motive (remaining.erase id) (queue ++ next id) → motive remaining (id :: queue))
    (pass : ∀ remaining id queue, remaining.contains id = false → motive remaining queue →
      motive remaining (id :: queue))
    (remaining : StateSet) (queue : List StateId) : motive remaining queue := by
  match queue with
  | [] => exact done remaining
  | id :: queue =>
    cases fresh : remaining.contains id with
    | true =>
      have := remaining.size_erase_lt id fresh
      exact visit remaining id queue fresh (visitFrom_induction next done visit pass _ _)
    | false => exact pass remaining id queue fresh (visitFrom_induction next done visit pass remaining queue)
termination_by (remaining.size, queue.length)

theorem visitFrom_nodup (next : StateId → List StateId) (remaining : StateSet) (queue : List StateId) :
    (visitFrom next remaining queue).Nodup ∧
      ∀ id ∈ visitFrom next remaining queue, remaining.contains id = true := by
  induction remaining, queue using visitFrom_induction next with
  | done remaining => simp
  | visit remaining id queue fresh ih =>
    have later : ∀ other ∈ visitFrom next (remaining.erase id) (queue ++ next id),
        other ≠ id ∧ remaining.contains other = true := fun other visited => by
      simpa [StateSet.contains_erase] using ih.2 other visited
    rw [visitFrom_cons_of_contains fresh]
    refine ⟨List.nodup_cons.2 ⟨fun again => (later id again).1 rfl, ih.1⟩, ?_⟩
    rintro other (_ | ⟨_, visited⟩)
    · exact fresh
    · exact (later other visited).2
  | pass remaining id queue stale ih => rwa [visitFrom_cons_of_not_contains stale]

/-- What holds of the queue and is handed on holds of all visited states. -/
theorem of_mem_visitFrom {motive : StateId → Prop} (queued : ∀ id ∈ queue, remaining.contains id = true → motive id)
    (handed : ∀ id, motive id → ∀ target ∈ next id, remaining.contains target = true → motive target)
    (visited : id ∈ visitFrom next remaining queue) : motive id := by
  induction remaining, queue using visitFrom_induction next with
  | done remaining => simp at visited
  | visit remaining first queue fresh ih =>
    have less {other : StateId} (left : (remaining.erase first).contains other = true) :
        remaining.contains other = true := by
      rw [StateSet.contains_erase, Bool.and_eq_true] at left
      exact left.2
    have opened := queued first List.mem_cons_self fresh
    rw [visitFrom_cons_of_contains fresh] at visited
    rcases List.mem_cons.1 visited with rfl | visited
    · exact opened
    · refine ih (fun other waiting left => ?_) (fun id held target leads left => handed id held target leads (less left))
        visited
      rcases List.mem_append.1 waiting with old | new
      · exact queued other (List.mem_cons_of_mem first old) (less left)
      · exact handed first opened other new (less left)
  | pass remaining first queue stale ih =>
    rw [visitFrom_cons_of_not_contains stale] at visited
    exact ih (fun other waiting => queued other (List.mem_cons_of_mem first waiting)) handed visited

/-- The queue is visited, and so is what visited states lead to, as far as it is to be visited. -/
theorem visitFrom_closed (next : StateId → List StateId) (remaining : StateSet) (queue : List StateId) :
    (∀ id ∈ queue, remaining.contains id = true → id ∈ visitFrom next remaining queue) ∧
      ∀ id ∈ visitFrom next remaining queue, ∀ target ∈ next id, remaining.contains target = true →
        target ∈ visitFrom next remaining queue := by
  induction remaining, queue using visitFrom_induction next with
  | done remaining => simp
  | visit remaining id queue fresh ih =>
    -- a state that waits behind the first one is that state again or is still to be visited
    have reached {other : StateId} (waiting : other ∈ queue ++ next id ∨
        ∃ visited ∈ visitFrom next (remaining.erase id) (queue ++ next id), other ∈ next visited)
        (left : remaining.contains other = true) : other ∈ visitFrom next remaining (id :: queue) := by
      rw [visitFrom_cons_of_contains fresh, List.mem_cons]
      by_cases again : other = id
      · exact .inl again
      · have left : (remaining.erase id).contains other = true := by simp [StateSet.contains_erase, again, left]
        rcases waiting with waiting | ⟨visited, present, leads⟩
        · exact .inr (ih.1 other waiting left)
        · exact .inr (ih.2 visited present other leads left)
    refine ⟨fun other waiting left => ?_, fun visited present target leads left => ?_⟩
    · rcases List.mem_cons.1 waiting with rfl | waiting
      · rw [visitFrom_cons_of_contains fresh]
        exact List.mem_cons_self
      · exact reached (.inl (List.mem_append_left _ waiting)) left
    · rw [visitFrom_cons_of_contains fresh] at present
      rcases List.mem_cons.1 present with rfl | present
      · exact reached (.inl (List.mem_append_right _ leads)) left
      · exact reached (.inr ⟨visited, present, leads⟩) left
  | pass remaining id queue stale ih =>
    rw [visitFrom_cons_of_not_contains stale]
    refine ⟨fun other waiting left => ?_, ih.2⟩
    rcases List.mem_cons.1 waiting with rfl | waiting
    · rw [stale] at left
      cases left
    · exact ih.1 other waiting left

end Visits

/-- Reached from a state along edges between states that are there. -/
inductive Reached (network : Network) (edge : State → StateId → Prop) (start : StateId) : StateId → Prop where
  | start (live : network.isLive start = true) : Reached network edge start start
  | step {id target : StateId} {state : State} (reached : Reached network edge start id)
      (found : network.state? id = some state) (leads : edge state target) (live : network.isLive target = true) :
      Reached network edge start target

/-- The states that a state with this number has after it. -/
def nextOf (network : Network) (next : State → List StateId) (id : StateId) : List StateId :=
  ((network.state? id).map next).getD []

theorem mem_nextOf {network : Network} {next : State → List StateId} {id target : StateId} :
    target ∈ network.nextOf next id ↔ ∃ state, network.state? id = some state ∧ target ∈ next state := by
  cases found : network.state? id <;> simp [nextOf, found]

theorem breadthFirst_eq (network : Network) (next : State → List StateId) (start : StateId) :
    network.breadthFirst next start = visitFrom (network.nextOf next) network.liveSet [start] :=
  rfl

theorem breadthFirst_nodup (network : Network) (next : State → List StateId) (start : StateId) :
    (network.breadthFirst next start).Nodup :=
  (visitFrom_nodup _ _ _).1

theorem mem_breadthFirst {network : Network} {next : State → List StateId} {start id : StateId} :
    id ∈ network.breadthFirst next start ↔ network.Reached (fun state target => target ∈ next state) start id := by
  rw [breadthFirst_eq]
  obtain ⟨queued, closed⟩ := visitFrom_closed (network.nextOf next) network.liveSet [start]
  constructor
  · refine of_mem_visitFrom (fun other waiting live => ?_) (fun id reached target leads live => ?_)
    · rw [contains_liveSet] at live
      cases List.mem_singleton.1 waiting
      exact .start live
    · rw [contains_liveSet] at live
      obtain ⟨state, found, leads⟩ := mem_nextOf.1 leads
      exact .step reached found leads live
  · intro reached
    induction reached with
    | start live => exact queued start (List.mem_singleton.2 rfl) (by rwa [contains_liveSet])
    | step _ found leads live visited =>
      exact closed _ visited _ (mem_nextOf.2 ⟨_, found, leads⟩) (by rwa [contains_liveSet])

/-! ### The walk in rounds -/

/-- A walk under way: the states that were visited and those that wait. -/
structure Walk where
  visited : List StateId
  queue : List StateId
deriving DecidableEq, Repr

/-- One round of a walk: the first state of the queue is dropped if it is not there or was visited; otherwise it is
visited, and the states after it wait behind the others. -/
def Walk.round (network : Network) (next : State → List StateId) (walk : Walk) : Walk :=
  match walk.queue with
  | [] => walk
  | id :: queue =>
      match network.state? id with
      | none => ⟨walk.visited, queue⟩
      | some state =>
          if id ∈ walk.visited then ⟨walk.visited, queue⟩ else ⟨walk.visited ++ [id], queue ++ next state⟩

theorem Walk.round_visit {network : Network} {next : State → List StateId} {visited queue : List StateId} {id : StateId}
    (live : network.isLive id = true) (fresh : id ∉ visited) :
    Walk.round network next ⟨visited, id :: queue⟩ = ⟨visited ++ [id], queue ++ network.nextOf next id⟩ := by
  obtain ⟨state, found⟩ := (isLive_iff network).1 live
  simp [Walk.round, found, fresh, nextOf]

theorem Walk.round_pass {network : Network} {next : State → List StateId} {visited queue : List StateId} {id : StateId}
    (stale : network.isLive id = false ∨ id ∈ visited) :
    Walk.round network next ⟨visited, id :: queue⟩ = ⟨visited, queue⟩ := by
  cases found : network.state? id with
  | none => simp [Walk.round, found]
  | some state =>
    have again : id ∈ visited := stale.resolve_left (by simp [isLive, found])
    simp [Walk.round, found, again]

/-- As many rounds as states come into the queue empty it, and visit what the walk visits. -/
theorem Walk.iterate_round (network : Network) (next : State → List StateId) (remaining : StateSet)
    (queue visited : List StateId)
    (leaves : ∀ id, remaining.contains id = (network.isLive id && decide (id ∉ visited))) :
    (Walk.round network next)^[queue.length +
        ((visitFrom (network.nextOf next) remaining queue).flatMap (network.nextOf next)).length] ⟨visited, queue⟩ =
      ⟨visited ++ visitFrom (network.nextOf next) remaining queue, []⟩ := by
  induction remaining, queue using visitFrom_induction (network.nextOf next) generalizing visited with
  | done remaining => simp
  | visit remaining id queue fresh ih =>
    have unseen : network.isLive id = true ∧ id ∉ visited := by simpa [leaves] using fresh
    have later := ih (visited ++ [id]) fun other => by
      rw [StateSet.contains_erase, leaves]
      by_cases same : other = id <;> simp [same]
    rw [visitFrom_cons_of_contains fresh, List.length_cons, List.flatMap_cons, List.length_append, Nat.add_right_comm,
      Function.iterate_succ_apply, Walk.round_visit unseen.1 unseen.2, ← Nat.add_assoc, ← List.length_append, later,
      List.append_assoc, List.singleton_append]
  | pass remaining id queue stale ih =>
    have closed : network.isLive id = false ∨ id ∈ visited := by
      rw [leaves, Bool.and_eq_false_iff, decide_eq_false_iff_not, not_not] at stale
      exact stale
    rw [visitFrom_cons_of_not_contains stale, List.length_cons, Nat.add_right_comm, Function.iterate_succ_apply,
      Walk.round_pass closed, ih visited leaves]

end Network

/-! ### The states that can be reached from a state -/

/-- A transition leads to its target, and a call to its follow state too. -/
def Transition.Leads (transition : Transition) (id : StateId) : Prop :=
  transition.target = id ∨ ∃ rule precedence, transition.label = .call rule precedence id

/-- The states that transitions of the state lead to. -/
def State.Leads (state : State) (id : StateId) : Prop :=
  ∃ transition ∈ state.transitions, transition.Leads id

namespace Network

theorem mem_successors {state : State} {id : StateId} : id ∈ successors state ↔ state.Leads id := by
  rw [successors, List.mem_flatMap]
  refine exists_congr fun transition => and_congr_right fun _ => ?_
  cases label : transition.label <;> simp [Transition.Leads, label, eq_comm]

theorem breadthFirst_eq_nil {network : Network} {next : State → List StateId} {start : StateId} :
    network.breadthFirst next start = [] ↔ network.isLive start = false := by
  rw [breadthFirst_eq]
  cases live : network.isLive start with
  | true => simp [visitFrom_cons_of_contains ((contains_liveSet network start).trans live)]
  | false => simp [visitFrom_cons_of_not_contains ((contains_liveSet network start).trans live)]

/-- The states that can be reached from `start` are those that transitions lead to, one after the other, through
states that are there. They are found, each of them once, in as many rounds as states come into the queue; there is
none if `start` is not there. -/
theorem reachableFrom_exact (network : Network) (start : StateId) :
    (∀ id, id ∈ network.reachableFrom start ↔ network.Reached State.Leads start id) ∧
      (network.reachableFrom start).Nodup ∧
      (network.reachableFrom start = [] ↔ network.isLive start = false) ∧
      (Walk.round network successors)^[1 + ((network.reachableFrom start).flatMap (network.nextOf successors)).length]
        ⟨[], [start]⟩ = ⟨network.reachableFrom start, []⟩ := by
  have edges : (fun state target => target ∈ successors state) = State.Leads :=
    funext fun state => funext fun target => propext mem_successors
  have rounds := Walk.iterate_round network successors network.liveSet [start] [] fun id => by
    simp [contains_liveSet]
  exact ⟨fun id => edges ▸ mem_breadthFirst, breadthFirst_nodup network successors start, breadthFirst_eq_nil, rounds⟩

end Network

end GrammarNetwork
