import GrammarNetwork.Proofs.Paint
import GrammarNetwork.Proofs.Sketches

/-! Plots: the sketch of a syntax tree with marks at the states that stand for some of its elements. The marks go the
way of the states, so a plot tells which of these states the construction takes out again. -/

namespace GrammarNetwork

namespace Plan

mutual

/-- The sketch of the element at `site`, where the state of each element inside it that is at one of these places is
marked. -/
def plot (plan : Plan) (index : Nat) (places : Site → Bool) (site : Site) : Element → Option Trail
  | ⟨.block ⟨alternatives, suffix⟩, _⟩ => do
      let trails ← plan.plotAlternatives index places site 0 alternatives
      Trail.ofBlock suffix trails
  | element => (plan.leaf? index element).map Leaf.trail

def plotList (plan : Plan) (index : Nat) (places : Site → Bool) (site : Site) (alternative : Nat) :
    Nat → List Element → Option (List Trail)
  | _, [] => some []
  | number, first :: rest => do
      let trail ← plan.plot index places (site.child alternative number) first
      let trails ← plan.plotList index places site alternative (number + 1) rest
      return (if places (site.child alternative number) then trail.mark else trail) :: trails

def plotAlternatives (plan : Plan) (index : Nat) (places : Site → Bool) (site : Site) :
    Nat → List Alternative → Option (List Trail)
  | _, [] => some []
  | number, ⟨elements, written⟩ :: rest => do
      let trails ← plan.plotList index places site number 0 elements
      let trail ← plan.assembleSketch index trails written
      let others ← plan.plotAlternatives index places site (number + 1) rest
      return trail :: others

end

/-- The sketch of the body of a rule with such marks. -/
def plotBody (plan : Plan) (index : Nat) (places : Site → Bool) (body : Block) : Option Trail := do
  let trails ← plan.plotAlternatives index places ⟨index, []⟩ 0 body.alternatives
  Trail.ofBlock body.suffix trails

/-- The state that stands for the element at this place is still in the body of its rule when that is complete: no pass
has taken it out, nor was it the end of a single transition that was left out. -/
def keeps (plan : Plan) (index : Nat) (rule : Rule) (site : Site) : Bool :=
  (plan.plotBody index (· == site) rule.body).any fun trail => trail.ids.contains 1

end Plan

/-- The state has been remembered for an element at one of these places. -/
def Construction.isStamp (construction : Construction) (places : Site → Bool) (id : StateId) : Bool :=
  construction.elementStates.any fun entry => places entry.1 && entry.2 == id

/-- All states that are remembered for elements have been made. -/
def Construction.Backed (construction : Construction) : Prop :=
  ∀ entry ∈ construction.elementStates, entry.2 < construction.network.nextId

/-- What is remembered for elements has been made, and what `before` did not remember is newer than its states. -/
structure Recalls (before after : Construction) : Prop where
  size : before.network.nextId ≤ after.network.nextId
  backed : after.Backed
  recent : ∀ entry ∈ after.elementStates, entry ∈ before.elementStates ∨ before.network.nextId ≤ entry.2

section Stamps

variable {before middle after : Construction} {places : Site → Bool} {id : StateId}

theorem Construction.Backed.isStamp (backed : before.Backed) (above : before.network.nextId ≤ id) :
    before.isStamp places id = false := by
  refine List.any_eq_false.mpr fun entry listed => ?_
  have different : entry.2 ≠ id := Nat.ne_of_lt (Nat.lt_of_lt_of_le (backed entry listed) above)
  simp [different]

theorem Construction.isStamp_of_same (same : after.elementStates = before.elementStates) :
    after.isStamp places = before.isStamp places := by
  unfold Construction.isStamp
  rw [same]

namespace Recalls

/-- Nothing has been remembered since. -/
theorem of_same (backed : before.Backed) (same : after.elementStates = before.elementStates)
    (size : before.network.nextId ≤ after.network.nextId) : Recalls before after where
  size
  backed entry listed := Nat.lt_of_lt_of_le (backed entry (same ▸ listed)) size
  recent _ listed := Or.inl (same ▸ listed)

theorem trans (first : Recalls before middle) (second : Recalls middle after) : Recalls before after where
  size := Nat.le_trans first.size second.size
  backed := second.backed
  recent entry listed := (second.recent entry listed).elim (first.recent entry) fun above =>
    Or.inr (Nat.le_trans first.size above)

/-- What an old state has been remembered for does not change any more. -/
theorem isStamp (recalls : Recalls before after) (remembered : before.elementStates ⊆ after.elementStates)
    (old : id < before.network.nextId) : after.isStamp places id = before.isStamp places id := by
  rw [Bool.eq_iff_iff, Construction.isStamp, Construction.isStamp, List.any_eq_true, List.any_eq_true]
  constructor
  · rintro ⟨entry, listed, found⟩
    refine ⟨entry, (recalls.recent entry listed).resolve_right fun above => ?_, found⟩
    have same : entry.2 = id := by simpa using (Bool.and_eq_true_iff.mp found).2
    exact absurd (same ▸ above) (Nat.not_le_of_lt old)
  · rintro ⟨entry, listed, found⟩
    exact ⟨entry, remembered listed, found⟩

end Recalls

/-- What has been built is painted as it is plotted, whichever places are marked. -/
structure Plots {α : Type} (before after : Construction) (plot : (Site → Bool) → Option α)
    (paint : (StateId → Bool) → α) : Prop extends Recalls before after where
  painted : ∀ places, plot places = some (paint (after.isStamp places))

section Pieces

variable {plan : Plan} {index gaps : Nat} {trail : Trail} {trails : List Trail} {piece : Handle}

/-- What is remembered later does not change how a piece is painted. -/
theorem Built.paint_later (built : Built before middle index trail piece) (recalls : Recalls middle after)
    (remembered : middle.elementStates ⊆ after.elementStates) :
    trail.paint (after.isStamp places) = trail.paint (middle.isStamp places) :=
  Trail.paint_congr fun _ member => recalls.isStamp remembered (built.lt_nextId member)

namespace Plots

/-- Nothing is remembered for what is inside a leaf. -/
theorem leaf {sketch : Option Trail} (backed : before.Backed)
    (built : Built (before.flawed gaps) after index trail piece) (same : after.elementStates = before.elementStates)
    (drawn : sketch = some trail.erase) :
    Plots before after (fun _ => sketch) fun marked => trail.paint marked where
  toRecalls := .of_same backed same built.grown.size
  painted places := by
    rw [drawn, Construction.isStamp_of_same same]
    exact congrArg some (Trail.paint_eq_erase fun id member => backed.isStamp (built.nextId_le member)).symm

theorem nil (backed : before.Backed) :
    Plots before before (fun _ => some []) fun marked => [].map (Trail.paint marked) where
  toRecalls := .of_same backed rfl (Nat.le_refl _)
  painted _ := rfl

/-- One more element in front, for which a state is remembered where its piece begins. -/
theorem cons {site : Site} {alternative number : Nat} {first : Element} {rest : List Element} {mark : StateId}
    (built : Built (before.flawed gaps) middle index trail piece) (opening : mark ∈ trail.opening)
    (inner : Plots before middle (fun places => plan.plot index places (site.child alternative number) first)
      fun marked => trail.paint marked)
    (behind : Construction.Backed
        { middle with elementStates := (site.child alternative number, mark) :: middle.elementStates } →
      Plots { middle with elementStates := (site.child alternative number, mark) :: middle.elementStates } after
        (fun places => plan.plotList index places site alternative (number + 1) rest)
        fun marked => trails.map (Trail.paint marked))
    (remembered : ((site.child alternative number, mark) :: middle.elementStates) ⊆ after.elementStates) :
    Plots before after (fun places => plan.plotList index places site alternative number (first :: rest))
      fun marked => (trail :: trails).map (Trail.paint marked) := by
  have own : mark ∈ trail.ids := Trail.mem_ids_of_opening opening
  have recalled : Recalls before
      { middle with elementStates := (site.child alternative number, mark) :: middle.elementStates } :=
    ⟨inner.size, List.forall_mem_cons.mpr ⟨built.lt_nextId own, inner.backed⟩,
      List.forall_mem_cons.mpr ⟨Or.inr (built.nextId_le own), inner.recent⟩⟩
  have later := behind recalled.backed
  refine ⟨recalled.trans later.toRecalls, fun places => ?_⟩
  have painted : (if places (site.child alternative number) then (trail.paint (middle.isStamp places)).mark
      else trail.paint (middle.isStamp places)) = trail.paint (after.isStamp places) := by
    rw [Trail.paint_congr fun _ member => later.isStamp remembered (built.lt_nextId member)]
    split
    · rename_i placed
      rw [← Trail.paint_opening built.nodup opening]
      refine Trail.paint_congr fun id _ => ?_
      rw [Construction.isStamp, Construction.isStamp, List.any_cons, placed, Bool.or_comm, BEq.comm, Bool.true_and]
    · rename_i unplaced
      refine Trail.paint_congr fun id _ => ?_
      simp [Construction.isStamp, unplaced]
  simp only [Plan.plotList, inner.painted, later.painted, Option.bind_eq_bind, Option.bind_some, Option.pure_def,
    painted, List.map_cons]

/-- One more alternative in front, whose elements have been put together since. -/
theorem alternative {site : Site} {number : Nat} {elements : List Element} {written : List Command}
    {rest : List Alternative} {pieces : List Trail} {current : Construction}
    (inner : Plots before current (fun places => plan.plotList index places site number 0 elements)
      fun marked => pieces.map (Trail.paint marked))
    (assembled : ∀ marked : StateId → Bool, (∀ id, current.network.nextId ≤ id → marked id = false) →
      plan.assembleSketch index (pieces.map (Trail.paint marked)) written = some (trail.paint marked))
    (built : Built (before.flawed gaps) middle index trail piece)
    (same : middle.elementStates = current.elementStates) (size : current.network.nextId ≤ middle.network.nextId)
    (behind : middle.Backed → Plots middle after
      (fun places => plan.plotAlternatives index places site (number + 1) rest)
      fun marked => trails.map (Trail.paint marked))
    (remembered : middle.elementStates ⊆ after.elementStates) :
    Plots before after (fun places => plan.plotAlternatives index places site number (⟨elements, written⟩ :: rest))
      fun marked => (trail :: trails).map (Trail.paint marked) := by
  have put := Recalls.of_same inner.backed same size
  have later := behind put.backed
  refine ⟨(inner.trans put).trans later.toRecalls, fun places => ?_⟩
  have whole := assembled (current.isStamp places) fun _ above => inner.backed.isStamp above
  have painted : trail.paint (current.isStamp places) = trail.paint (after.isStamp places) := by
    rw [built.paint_later later.toRecalls remembered, Construction.isStamp_of_same same]
  simp only [Plan.plotAlternatives, inner.painted, later.painted, whole, Option.bind_eq_bind, Option.bind_some,
    Option.pure_def, painted, List.map_cons]

/-- The alternatives of a block have been put together. -/
theorem block {suffix : Option Suffix} {plots : (Site → Bool) → Option (List Trail)}
    (inner : Plots before middle plots fun marked => trails.map (Trail.paint marked))
    (framed : ∀ marked : StateId → Bool, (∀ id, middle.network.nextId ≤ id → marked id = false) →
      Trail.ofBlock suffix (trails.map (Trail.paint marked)) = some (trail.paint marked))
    (same : after.elementStates = middle.elementStates) (size : middle.network.nextId ≤ after.network.nextId) :
    Plots before after (fun places => plots places >>= Trail.ofBlock suffix) fun marked => trail.paint marked where
  toRecalls := inner.trans (.of_same inner.backed same size)
  painted places := by
    rw [inner.painted, Option.bind_eq_bind, Option.bind_some, Construction.isStamp_of_same same]
    exact framed _ fun _ above => inner.backed.isStamp above

end Plots

end Pieces

end Stamps

end GrammarNetwork
