import Mathlib.Tactic.Common
import GrammarNetwork.Construction.Compose

/-! Heaps: the states of a part of a network with their numbers. A network grows by a heap when its old
states stay as they were and its new ones are those of the heap. -/

namespace GrammarNetwork

namespace Network

variable (network : Network)

theorem state?_of_nextId_le {id : StateId} (beyond : network.nextId ≤ id) :
    network.state? id = none := by
  have missing : network.states[id]? = none := Array.getElem?_eq_none beyond
  simp [state?, missing]

theorem lt_nextId_of_state? {id : StateId} {state : State} (found : network.state? id = some state) :
    id < network.nextId := by
  by_contra beyond
  rw [state?_of_nextId_le network (Nat.le_of_not_lt beyond)] at found
  cases found

theorem isLive_iff {id : StateId} : network.isLive id = true ↔ ∃ state, network.state? id = some state := by
  simp [isLive, Option.isSome_iff_exists]

theorem mem_liveStates {id : StateId} {state : State} :
    (id, state) ∈ network.liveStates ↔ network.state? id = some state := by
  simp only [liveStates, state?, List.mem_filterMap, Option.map_eq_some_iff, Prod.mk.injEq, Prod.exists,
    List.mk_mem_zipIdx_iff_getElem?, Array.getElem?_toList, Option.join_eq_some_iff]
  constructor
  · rintro ⟨slot, number, found, _, rfl, rfl, rfl⟩
    exact found
  · exact fun found => ⟨some state, id, found, state, rfl, rfl, rfl⟩

@[simp] theorem state?_addState (state : State) (id : StateId) :
    (network.addState state).state? id =
      if id = network.nextId then some state else network.state? id := by
  by_cases last : id = network.states.size <;> simp [addState, state?, nextId, Array.getElem?_push, last]

@[simp] theorem nextId_addState (state : State) :
    (network.addState state).nextId = network.nextId + 1 := by
  simp [addState, nextId]

@[simp] theorem state?_removeState (removed id : StateId) :
    (network.removeState removed).state? id =
      if id = removed then none else network.state? id := by
  simp only [removeState, state?, Array.getElem?_setIfInBounds]
  by_cases same : removed = id
  · subst same
    by_cases bound : removed < network.states.size <;> simp [bound]
  · simp [same, Ne.symm same]

@[simp] theorem nextId_removeState (removed : StateId) :
    (network.removeState removed).nextId = network.nextId := by
  simp [removeState, nextId]

@[simp] theorem state?_modifyState (changed id : StateId) (change : State → State) :
    (network.modifyState changed change).state? id =
      if id = changed then (network.state? id).map change else network.state? id := by
  simp only [modifyState, state?, Array.getElem?_modify]
  by_cases same : changed = id
  · subst same
    cases slot : network.states[changed]? with
    | none => simp
    | some state => cases state <;> simp
  · simp [same, Ne.symm same]

@[simp] theorem isLive_modifyState (changed id : StateId) (change : State → State) :
    (network.modifyState changed change).isLive id = network.isLive id := by
  rw [isLive, isLive, state?_modifyState]
  split <;> simp

@[simp] theorem nextId_modifyState (changed : StateId) (change : State → State) :
    (network.modifyState changed change).nextId = network.nextId := by
  simp [modifyState, nextId]

@[simp] theorem state?_pushDecision (decided id : StateId) :
    (network.pushDecision decided).state? id =
      if id = decided then
        (network.state? id).map fun state => { state with decision := some network.decisions.size }
      else network.state? id :=
  state?_modifyState network decided id fun state =>
    { state with decision := some network.decisions.size }

@[simp] theorem nextId_pushDecision (decided : StateId) :
    (network.pushDecision decided).nextId = network.nextId := by
  simp [pushDecision, modifyState, nextId]

@[simp] theorem decisions_pushDecision (decided : StateId) :
    (network.pushDecision decided).decisions = network.decisions.push decided := by
  simp [pushDecision, modifyState]

end Network

/-- States with their numbers. -/
abbrev Heap := List (StateId × State)

namespace Heap

def ids (heap : Heap) : List StateId :=
  heap.map Prod.fst

def modify (heap : Heap) (id : StateId) (change : State → State) : Heap :=
  heap.map fun entry => if entry.1 = id then (entry.1, change entry.2) else entry

def remove (heap : Heap) (id : StateId) : Heap :=
  heap.filter fun entry => entry.1 ≠ id

@[simp] theorem ids_nil : ids [] = [] := rfl

@[simp] theorem ids_cons (entry : StateId × State) (heap : Heap) :
    ids (entry :: heap) = entry.1 :: ids heap := rfl

@[simp] theorem ids_append (left right : Heap) : ids (left ++ right) = ids left ++ ids right := by
  simp [ids]

theorem mem_ids {heap : Heap} {id : StateId} : id ∈ heap.ids ↔ ∃ state, (id, state) ∈ heap := by
  simp [ids]

theorem mem_ids_of_mem {heap : Heap} {entry : StateId × State} (member : entry ∈ heap) :
    entry.1 ∈ heap.ids :=
  List.mem_map_of_mem member

@[simp] theorem ids_modify (heap : Heap) (id : StateId) (change : State → State) :
    (heap.modify id change).ids = heap.ids := by
  simp only [modify, ids, List.map_map]
  congr 1
  funext entry
  simp only [Function.comp_apply]
  split <;> rfl

@[simp] theorem modify_nil (id : StateId) (change : State → State) : modify [] id change = [] := rfl

@[simp] theorem modify_cons (entry : StateId × State) (heap : Heap) (id : StateId)
    (change : State → State) :
    modify (entry :: heap) id change =
      (if entry.1 = id then (entry.1, change entry.2) else entry) :: modify heap id change := rfl

@[simp] theorem modify_append (left right : Heap) (id : StateId) (change : State → State) :
    modify (left ++ right) id change = modify left id change ++ modify right id change := by
  simp [modify]

theorem modify_of_notMem {heap : Heap} {id : StateId} (absent : id ∉ heap.ids) (change : State → State) :
    heap.modify id change = heap := by
  simp only [modify]
  conv => rhs; rw [← List.map_id heap]
  apply List.map_congr_left
  intro entry member
  have different : entry.1 ≠ id := fun same => absent (same ▸ mem_ids_of_mem member)
  simp [different]

theorem mem_modify {heap : Heap} {id changed : StateId} {state : State} {change : State → State} :
    (id, state) ∈ heap.modify changed change ↔
      (id ≠ changed ∧ (id, state) ∈ heap) ∨
        (id = changed ∧ ∃ old, (id, old) ∈ heap ∧ state = change old) := by
  simp only [modify, List.mem_map, Prod.exists]
  constructor
  · rintro ⟨other, old, member, same⟩
    by_cases hit : other = changed
    · simp only [hit, ↓reduceIte, Prod.mk.injEq] at same
      exact Or.inr ⟨same.1.symm, old, by rw [← same.1, ← hit]; exact member, same.2.symm⟩
    · simp only [hit, ↓reduceIte, Prod.mk.injEq] at same
      obtain ⟨rfl, rfl⟩ := same
      exact Or.inl ⟨hit, member⟩
  · rintro (⟨different, member⟩ | ⟨rfl, old, member, rfl⟩)
    · exact ⟨id, state, member, by simp [different]⟩
    · exact ⟨id, old, member, by simp⟩

theorem mem_remove {heap : Heap} {id removed : StateId} {state : State} :
    (id, state) ∈ heap.remove removed ↔ id ≠ removed ∧ (id, state) ∈ heap := by
  simp [remove, and_comm]

@[simp] theorem remove_nil (id : StateId) : remove [] id = [] := rfl

@[simp] theorem remove_cons (entry : StateId × State) (heap : Heap) (id : StateId) :
    remove (entry :: heap) id = if entry.1 = id then remove heap id else entry :: remove heap id := by
  by_cases same : entry.1 = id <;> simp [remove, same]

@[simp] theorem remove_append (left right : Heap) (id : StateId) :
    remove (left ++ right) id = remove left id ++ remove right id := by
  simp [remove]

theorem remove_of_notMem {heap : Heap} {id : StateId} (absent : id ∉ heap.ids) : heap.remove id = heap := by
  apply List.filter_eq_self.mpr
  intro entry member
  have different : entry.1 ≠ id := fun same => absent (same ▸ mem_ids_of_mem member)
  simp [different]

theorem ids_remove (heap : Heap) (id : StateId) : (heap.remove id).ids = heap.ids.filter (· ≠ id) := by
  simp [remove, ids, List.filter_map, Function.comp_def]

/-- In a heap without repetitions a number stands for one state. -/
theorem eq_of_mem {heap : Heap} (unique : heap.ids.Nodup) {id : StateId} {first second : State}
    (left : (id, first) ∈ heap) (right : (id, second) ∈ heap) : first = second := by
  induction heap with
  | nil => simp at left
  | cons entry heap ih =>
      simp only [ids_cons, List.nodup_cons] at unique
      rcases List.mem_cons.mp left with atLeft | inLeft
      · rcases List.mem_cons.mp right with atRight | inRight
        · rw [← atLeft] at atRight
          exact (Prod.mk.inj atRight).2.symm
        · exact absurd (mem_ids_of_mem inRight) (by rw [← atLeft] at unique; exact unique.1)
      · rcases List.mem_cons.mp right with atRight | inRight
        · exact absurd (mem_ids_of_mem inLeft) (by rw [← atRight] at unique; exact unique.1)
        · exact ih unique.2 inLeft inRight

/-- The state that gets the next number is the only one with it, and all others keep their numbers. -/
theorem decided_modify {heap : Heap} (unique : heap.ids.Nodup) {id other : StateId} {state : State}
    {next number : Nat} (member : (id, state) ∈ heap) (undecided : state.decision = none)
    (unused : ∀ found, (other, found) ∈ heap → found.decision ≠ some next) :
    (∃ found, (other, found) ∈ heap.modify id (fun state => { state with decision := some next }) ∧
      found.decision = some number) ↔
        if number = next then id = other else ∃ found, (other, found) ∈ heap ∧ found.decision = some number := by
  simp only [mem_modify]
  split
  · rename_i last
    subst last
    constructor
    · rintro ⟨found, ⟨_, inside⟩ | ⟨same, _⟩, decided⟩
      · exact absurd decided (unused found inside)
      · exact same.symm
    · rintro rfl
      exact ⟨_, Or.inr ⟨rfl, state, member, rfl⟩, rfl⟩
  · rename_i earlier
    constructor
    · rintro ⟨found, ⟨_, inside⟩ | ⟨_, _, _, rfl⟩, decided⟩
      · exact ⟨found, inside, decided⟩
      · exact absurd (Option.some.inj decided).symm earlier
    · rintro ⟨found, inside, decided⟩
      refine ⟨found, Or.inl ⟨?_, inside⟩, decided⟩
      rintro rfl
      rw [eq_of_mem unique inside member, undecided] at decided
      cases decided

end Heap

end GrammarNetwork
