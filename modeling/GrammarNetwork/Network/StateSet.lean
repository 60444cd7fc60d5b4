import GrammarNetwork.Network.Basic

/-! Sets of states as flags, one for each number. A walk keeps the states that it has still to visit in
such a set; the set gets smaller with every visit, so the walk ends. -/

namespace GrammarNetwork

/-- A set of states: those whose flag is set. -/
structure StateSet where
  flags : Array Bool
deriving DecidableEq, Repr

namespace StateSet

def contains (set : StateSet) (id : StateId) : Bool :=
  set.flags[id]? == some true

def erase (set : StateSet) (id : StateId) : StateSet :=
  ⟨set.flags.setIfInBounds id false⟩

/-- The number of states in the set. -/
def size (set : StateSet) : Nat :=
  set.flags.count true

theorem contains_erase (set : StateSet) (id other : StateId) :
    (set.erase id).contains other = (decide (other ≠ id) && set.contains other) := by
  by_cases same : id = other
  · subst same
    by_cases bound : id < set.flags.size <;> simp [contains, erase, bound]
  · simp [contains, erase, same, Ne.symm same]

theorem size_erase_lt (set : StateSet) (id : StateId) (present : set.contains id = true) :
    (set.erase id).size < set.size := by
  simp only [contains, beq_iff_eq] at present
  obtain ⟨bound, marked⟩ := Array.getElem?_eq_some_iff.mp present
  have member : true ∈ set.flags := marked ▸ Array.getElem_mem bound
  have positive := Array.count_pos_iff.mpr member
  simp only [erase, size, Array.setIfInBounds, bound, ↓reduceDIte, Array.count_set, marked]
  simp
  omega

end StateSet

/-- The states that are there. -/
def Network.liveSet (network : Network) : StateSet :=
  ⟨network.states.map Option.isSome⟩

end GrammarNetwork
