import GrammarNetwork.Proofs.Joining

/-! Painted trails: of the numbers of a trail only those of some states are kept, as marks. What is done to a trail
moves the marks along with the states, so they tell which of the states have been taken out. -/

namespace GrammarNetwork

mutual

/-- The trail without its numbers, but a state that is marked has the number 1. A block is marked at its start for all
the states around its alternatives. -/
def Trail.paint (marked : StateId → Bool) : Trail → Trail
  | .done => .done
  | .step source label rest => .step (marked source).toNat label.erase (rest.paint marked)
  | .gap source rest => .gap (marked source).toNat (rest.paint marked)
  | .block frame start exit ways rest =>
      .block frame.erase ((start :: exit :: frame.loopIds).any marked).toNat 0 (ways.paint marked) (rest.paint marked)

def Ways.paint (marked : StateId → Bool) : Ways → Ways
  | .none => .none
  | .more way rest => .more (way.paint marked) (rest.paint marked)

end

/-- The states where the trail begins: all those around the alternatives, if it begins with a block. -/
def Trail.opening : Trail → List StateId
  | .done => []
  | .step source _ _ => [source]
  | .gap source _ => [source]
  | .block frame start exit _ _ => start :: exit :: frame.loopIds

/-- The painted trail with a mark where it begins. -/
def Trail.mark : Trail → Trail
  | .done => .done
  | .step _ label rest => .step 1 label rest
  | .gap _ rest => .gap 1 rest
  | .block frame _ exit ways rest => .block frame 1 exit ways rest

section Marks

variable {marked other : StateId → Bool}

theorem any_congr_of_mem {ids : List StateId} (same : ∀ id ∈ ids, marked id = other id) :
    ids.any marked = ids.any other := by
  rw [Bool.eq_iff_iff, List.any_eq_true, List.any_eq_true]
  exact exists_congr fun id => and_congr_right fun listed => by rw [same id listed]

mutual

/-- Which of its states are marked is all that matters for painting a trail. -/
theorem Trail.paint_congr : ∀ {trail : Trail}, (∀ id ∈ trail.ids, marked id = other id) →
    trail.paint marked = trail.paint other
  | .done, _ => rfl
  | .step source label rest, same => by
      rw [Trail.ids, List.forall_mem_cons] at same
      rw [Trail.paint, Trail.paint, same.1, Trail.paint_congr same.2]
  | .gap source rest, same => by
      rw [Trail.ids, List.forall_mem_cons] at same
      rw [Trail.paint, Trail.paint, same.1, Trail.paint_congr same.2]
  | .block frame start exit ways rest, same => by
      rw [Trail.ids, List.forall_mem_append, List.forall_mem_append] at same
      obtain ⟨around, inside, behind⟩ := same
      rw [Trail.paint, Trail.paint, any_congr_of_mem around, Ways.paint_congr inside, Trail.paint_congr behind]

theorem Ways.paint_congr : ∀ {ways : Ways}, (∀ id ∈ ways.ids, marked id = other id) →
    ways.paint marked = ways.paint other
  | .none, _ => rfl
  | .more way rest, same => by
      rw [Ways.ids, List.forall_mem_append] at same
      rw [Ways.paint, Ways.paint, Trail.paint_congr same.1, Ways.paint_congr same.2]

end

mutual

theorem Trail.paint_none : ∀ (trail : Trail), (trail.paint fun _ => false) = trail.erase
  | .done => rfl
  | .step _ _ rest => by rw [Trail.paint, rest.paint_none, Trail.erase, Bool.toNat_false]
  | .gap _ rest => by rw [Trail.paint, rest.paint_none, Trail.erase, Bool.toNat_false]
  | .block frame start exit ways rest => by
      have none : (start :: exit :: frame.loopIds).any (fun _ => false) = false := by simp
      rw [Trail.paint, ways.paint_none, rest.paint_none, Trail.erase, none, Bool.toNat_false]

theorem Ways.paint_none : ∀ (ways : Ways), (ways.paint fun _ => false) = ways.erase
  | .none => rfl
  | .more way rest => by rw [Ways.paint, way.paint_none, rest.paint_none, Ways.erase]

end

/-- A trail none of whose states is marked is painted without marks. -/
theorem Trail.paint_eq_erase {trail : Trail} (none : ∀ id ∈ trail.ids, marked id = false) :
    trail.paint marked = trail.erase :=
  (Trail.paint_congr none).trans trail.paint_none

theorem Frame.loopIds_erase (frame : Frame) : ∀ id ∈ frame.erase.loopIds, id = 0 := by
  cases frame <;> simp [Frame.erase, Frame.loopIds]

mutual

/-- There is a mark on the painted trail just if one of its states is marked. -/
theorem Trail.mem_ids_paint : ∀ (trail : Trail),
    1 ∈ (trail.paint marked).ids ↔ ∃ id, id ∈ trail.ids ∧ marked id = true
  | .done => by simp [Trail.paint, Trail.ids]
  | .step source _ rest => by
      have behind := rest.mem_ids_paint
      cases found : marked source <;> simp [Trail.paint, Trail.ids, behind, or_and_right, exists_or, found]
  | .gap source rest => by
      have behind := rest.mem_ids_paint
      cases found : marked source <;> simp [Trail.paint, Trail.ids, behind, or_and_right, exists_or, found]
  | .block frame start exit ways rest => by
      have loops : (1 : StateId) ∉ frame.erase.loopIds := fun member => by
        cases frame.loopIds_erase 1 member
      have around : 1 ∈ ((start :: exit :: frame.loopIds).any marked).toNat :: 0 :: frame.erase.loopIds ↔
          ∃ id, id ∈ start :: exit :: frame.loopIds ∧ marked id = true := by
        rw [← List.any_eq_true]
        cases (start :: exit :: frame.loopIds).any marked <;> simp [loops]
      rw [Trail.paint, Trail.ids, Trail.ids, List.mem_append, List.mem_append, around, ways.mem_ids_paint,
        rest.mem_ids_paint]
      simp only [List.mem_append, or_and_right, exists_or]

theorem Ways.mem_ids_paint : ∀ (ways : Ways),
    1 ∈ (ways.paint marked).ids ↔ ∃ id, id ∈ ways.ids ∧ marked id = true
  | .none => by simp [Ways.paint, Ways.ids]
  | .more way rest => by
      rw [Ways.paint, Ways.ids, Ways.ids, List.mem_append, way.mem_ids_paint, rest.mem_ids_paint]
      simp only [List.mem_append, or_and_right, exists_or]

end

namespace Trail

theorem mem_ids_of_opening {trail : Trail} {id : StateId} (member : id ∈ trail.opening) : id ∈ trail.ids := by
  cases trail with
  | done => cases member
  | step | gap => exact List.mem_singleton.mp member ▸ List.mem_cons_self
  | block => exact List.mem_append_left _ member

theorem opening_of_first? {trail : Trail} {id : StateId} (first : trail.first? = some id) : id ∈ trail.opening := by
  cases trail with
  | done => cases first
  | step | gap =>
      cases first
      exact List.mem_singleton_self _
  | block frame start exit =>
      cases first
      exact entry_mem frame start exit

/-- One of the states where a trail begins is marked as well. -/
theorem paint_opening {trail : Trail} {id : StateId} (unique : trail.ids.Nodup) (member : id ∈ trail.opening) :
    trail.paint (fun other => marked other || other == id) = (trail.paint marked).mark := by
  -- No state behind is the one in question, and around a block it does not matter which one is marked.
  have others : ∀ {ids : List StateId}, id ∉ ids → ∀ other ∈ ids, (marked other || other == id) = marked other := by
    intro ids absent other listed
    have different : other ≠ id := fun same => absent (same ▸ listed)
    simp [different]
  cases trail with
  | done => cases member
  | step source label rest =>
      obtain rfl := List.mem_singleton.mp member
      rw [paint, paint_congr (others (List.nodup_cons.mp unique).1)]
      simp [paint, mark]
  | gap source rest =>
      obtain rfl := List.mem_singleton.mp member
      rw [paint, paint_congr (others (List.nodup_cons.mp unique).1)]
      simp [paint, mark]
  | block frame start exit ways rest =>
      obtain ⟨_, _, _, apart, _⟩ := nodup_block.mp unique
      have found : (start :: exit :: frame.loopIds).any (fun other => marked other || other == id) = true :=
        List.any_eq_true.mpr ⟨id, member, by simp⟩
      rw [paint, Ways.paint_congr (others (apart id member).1), paint_congr (others (apart id member).2), found]
      rfl

end Trail

end Marks

section Pieces

variable {marked : StateId → Bool}

@[simp] theorem Trail.passes_paint : ∀ (trail : Trail), (trail.paint marked).passes = trail.passes
  | .done => rfl
  | .gap _ _ => rfl
  | .block _ _ _ _ _ => rfl
  | .step _ label .done => label.passes_erase
  | .step _ _ (.step _ _ _) => rfl
  | .step _ _ (.gap _ _) => rfl
  | .step _ _ (.block _ _ _ _ _) => rfl

mutual

theorem Trail.passable_paint : ∀ (trail : Trail), (trail.paint marked).passable = trail.passable
  | .done => rfl
  | .step _ label rest => by simp [Trail.paint, Trail.passable, rest.passable_paint]
  | .gap _ _ => rfl
  | .block frame _ _ ways rest => by
      simp [Trail.paint, Trail.passable, ways.passable_paint, rest.passable_paint]

theorem Ways.passable_paint : ∀ (ways : Ways), (ways.paint marked).passable = ways.passable
  | .none => rfl
  | .more way rest => by simp [Ways.paint, Ways.passable, way.passable_paint, rest.passable_paint]

end

mutual

/-- A pass takes the same states out of the painted trail. -/
theorem Trail.paint_strip (other : Bool) : ∀ (trail : Trail),
    (trail.strip other).paint marked = (trail.paint marked).strip other
  | .done => rfl
  | .step source label rest => by
      simp only [Trail.strip, Trail.paint, Trail.passes_paint, Label.isCall_erase]
      split
      · rfl
      · split
        · rfl
        · rw [Trail.paint, rest.paint_strip]
  | .gap source rest => rfl
  | .block frame start exit ways rest => by
      simp only [Trail.strip, Trail.paint, Frame.skips_erase, Frame.isStar_erase, ways.passable_paint,
        ways.paint_strip]
      split
      · rw [rest.paint_strip]
      · rfl

theorem Ways.paint_strip (other : Bool) : ∀ (ways : Ways),
    (ways.strip other).paint marked = (ways.paint marked).strip other
  | .none => rfl
  | .more way rest => by
      rw [Ways.strip, Ways.paint, way.paint_strip, rest.paint_strip]
      rfl

end

namespace Trail

theorem paint_append (next : Trail) : ∀ (trail : Trail),
    (trail.append next).paint marked = (trail.paint marked).append (next.paint marked)
  | .done => rfl
  | .step _ _ rest => by simp [append, paint, paint_append next rest]
  | .gap _ rest => by simp [append, paint, paint_append next rest]
  | .block _ _ _ _ rest => by simp [append, paint, paint_append next rest]

theorem single?_paint : ∀ (trail : Trail),
    (trail.paint marked).single? = trail.single?.map fun found => ((marked found.1).toNat, found.2.erase)
  | .done => rfl
  | .gap _ _ => rfl
  | .block _ _ _ _ _ => rfl
  | .step _ _ .done => rfl
  | .step _ _ (.gap _ _) => rfl
  | .step _ _ (.block _ _ _ _ _) => rfl
  | .step _ _ (.step _ _ .done) => rfl
  | .step _ _ (.step _ _ (.step _ _ _)) => rfl
  | .step _ _ (.step _ _ (.gap _ _)) => rfl
  | .step _ _ (.step _ _ (.block _ _ _ _ _)) => rfl

theorem paint_join (trail next : Trail) :
    (trail.join next).paint marked = (trail.paint marked).join (next.paint marked) := by
  unfold join
  rw [single?_paint]
  cases trail.single? with
  | none => exact paint_append next trail
  | some found => rfl

theorem paint_joinAll : ∀ (trails : List Trail),
    (joinAll trails).paint marked = joinAll (trails.map (paint marked))
  | [] => rfl
  | [_] => rfl
  | trail :: next :: rest => by
      rw [joinAll, paint_join, paint_joinAll (next :: rest)]
      rfl

end Trail

end Pieces

end GrammarNetwork
