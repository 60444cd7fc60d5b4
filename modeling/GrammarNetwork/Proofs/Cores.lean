import GrammarNetwork.Proofs.Joints
import GrammarNetwork.Proofs.Paint

/-! Cores: the states of a trail that stay, whatever is built around it. A pass takes out only what lies behind the last
transition that is more than a way on, and where trails are joined only the end of one that leads on. -/

namespace GrammarNetwork

/-- The trail only leads on. -/
def Trail.idle : Trail → Bool
  | .done => true
  | .step _ label rest => label.passes && rest.idle
  | .gap _ _ => false
  | .block _ _ _ _ _ => false

mutual

/-- The states of the trail up to the last one that is more than a way on, all of them if `works` says that there is
another one behind the trail. -/
def Trail.core (works : Bool) : Trail → List StateId
  | .done => []
  | .step source label rest => if !works && label.passes && rest.idle then [] else source :: rest.core works
  | .gap source rest => source :: rest.core works
  | .block frame start exit ways rest => start :: exit :: frame.loopIds ++ (ways.core ++ rest.core works)

/-- Behind an alternative there is only the end of its block. -/
def Ways.core : Ways → List StateId
  | .none => []
  | .more way rest => way.core false ++ rest.core

end

namespace Trail

theorem idle_of_passes {trail : Trail} (passes : trail.passes = true) : trail.idle = true := by
  obtain ⟨source, label, rfl, taken⟩ := passes_eq_true.mp passes
  simp [idle, taken]

theorem core_of_idle : ∀ {trail : Trail}, trail.idle = true → trail.core false = []
  | .done, _ => rfl
  | .step _ _ _, idle => if_pos idle

/-- A trail that does more than lead on, or is not the end of what does, keeps its first state. -/
theorem first?_mem_core {trail : Trail} {id : StateId} {works : Bool} (first : trail.first? = some id)
    (stays : works = true ∨ trail.idle = false) : id ∈ trail.core works := by
  cases trail with
  | done => cases first
  | step source label rest =>
      cases first
      have kept : ¬(!works && label.passes && rest.idle) = true := by
        rcases stays with rfl | works
        · simp
        · rw [idle] at works
          simp [Bool.and_assoc, works]
      rw [core, if_neg kept]
      exact List.mem_cons_self
  | gap source rest =>
      cases first
      exact List.mem_cons_self
  | block frame start exit ways rest =>
      cases first
      exact List.mem_append_left _ (entry_mem frame start exit)

theorem idle_erase (trail : Trail) : trail.erase.idle = trail.idle := by
  cases trail with
  | done => rfl
  | step _ label rest => simp [erase, idle, rest.idle_erase]
  | gap => rfl
  | block => rfl

theorem idle_strip (other : Bool) (trail : Trail) : (trail.strip other).idle = trail.idle := by
  cases trail with
  | done => rfl
  | step source label rest =>
      rw [strip]
      split
      · rename_i strips
        have passes := idle_of_passes (Bool.and_eq_true_iff.mp strips).2
        simp [idle, passes]
      · split
        · rfl
        · rw [idle, rest.idle_strip, idle]
  | gap => rfl
  | block => rfl

/-- More states stay if there is more behind the trail. -/
theorem core_subset (works : Bool) (trail : Trail) : trail.core false ⊆ trail.core works := by
  cases trail with
  | done => exact List.Subset.refl _
  | step source label rest =>
      cases works with
      | false => exact List.Subset.refl _
      | true =>
          rw [core]
          split
          · exact List.nil_subset _
          · exact List.cons_subset_cons _ (rest.core_subset true)
  | gap source rest => exact List.cons_subset_cons _ (rest.core_subset works)
  | block _ _ _ _ rest =>
      simp only [core]
      intro id member
      simp only [List.mem_append] at member ⊢
      exact member.imp_right (Or.imp_right fun later => rest.core_subset works later)

end Trail

mutual

theorem Trail.mem_ids_of_core {id : StateId} {works : Bool} : ∀ {trail : Trail}, id ∈ trail.core works → id ∈ trail.ids
  | .step source label rest, member => by
      rw [Trail.core] at member
      split at member
      · cases member
      · exact (List.mem_cons.mp member).elim (· ▸ List.mem_cons_self)
          fun later => List.mem_cons_of_mem _ (Trail.mem_ids_of_core later)
  | .gap source rest, member =>
      (List.mem_cons.mp member).elim (· ▸ List.mem_cons_self)
        fun later => List.mem_cons_of_mem _ (Trail.mem_ids_of_core later)
  | .block frame start exit ways rest, member => by
      simp only [Trail.core, Trail.ids, List.mem_append] at member ⊢
      exact member.imp_right (Or.imp Ways.mem_ids_of_core Trail.mem_ids_of_core)

theorem Ways.mem_ids_of_core {id : StateId} : ∀ {ways : Ways}, id ∈ ways.core → id ∈ ways.ids
  | .more way rest, member => by
      simp only [Ways.core, Ways.ids, List.mem_append] at member ⊢
      exact member.imp Trail.mem_ids_of_core Ways.mem_ids_of_core

end

mutual

/-- A pass takes nothing out of the core. -/
theorem Trail.core_strip (other : Bool) : ∀ (trail : Trail), (trail.strip other).core false = trail.core false
  | .done => rfl
  | .step source label rest => by
      rw [Trail.strip]
      split
      · rename_i strips
        have idle := Trail.idle_of_passes (Bool.and_eq_true_iff.mp strips).2
        simp [Trail.core, Trail.idle, idle, Trail.core_of_idle idle]
      · split
        · rfl
        · simp only [Trail.core, rest.idle_strip, rest.core_strip]
  | .gap _ _ => rfl
  | .block frame start exit ways rest => by
      rw [Trail.strip, Trail.core, ways.core_strip]
      split
      · rw [rest.core_strip, Trail.core]
      · rfl

theorem Ways.core_strip (other : Bool) : ∀ (ways : Ways), (ways.strip other).core = ways.core
  | .none => rfl
  | .more way rest => by rw [Ways.strip, Ways.core, way.core_strip, rest.core_strip, Ways.core]

end

namespace Trail

section Joining

variable {trail next : Trail}

theorem idle_append (next : Trail) : ∀ (trail : Trail), (trail.append next).idle = (trail.idle && next.idle)
  | .done => rfl
  | .step _ label rest => by rw [append, idle, idle_append next rest, idle, Bool.and_assoc]
  | .gap _ _ => rfl
  | .block _ _ _ _ _ => rfl

/-- What stays of a trail depends on whether what comes next is more than a way on. -/
theorem core_append (next : Trail) (works : Bool) : ∀ (trail : Trail),
    (trail.append next).core works = trail.core (works || !next.idle) ++ next.core works
  | .done => rfl
  | .step source label rest => by
      have same : (!works && label.passes && (rest.append next).idle) =
          (!(works || !next.idle) && label.passes && rest.idle) := by
        rw [idle_append]
        cases works <;> cases next.idle <;> simp
      rw [append, core, core, same, core_append next works rest]
      split
      · rename_i leads
        cases works with
        | true => simp at leads
        | false =>
            have idle : next.idle = true := by
              cases idle : next.idle <;> simp [idle] at leads ⊢
            rw [core_of_idle idle]
            rfl
      · rfl
  | .gap source rest => by rw [append, core, core_append next works rest, core, List.cons_append]
  | .block frame start exit ways rest => by
      rw [append, core, core_append next works rest, core, List.append_assoc, List.append_assoc]

/-- The end of a single transition, which is left out, only leads on. -/
theorem single?_of_isOpen {source : StateId} {label : Label} (opens : trail.IsOpen)
    (single : trail.single? = some (source, label)) :
    ∃ target, trail = .step source label (.step target .epsilon .done) := by
  obtain ⟨target, last, rfl⟩ := single?_eq_some.mp single
  obtain rfl : last = .epsilon := by simpa [IsOpen, first?] using opens
  exact ⟨target, rfl⟩

theorem idle_join (opens : trail.IsOpen) (next : Trail) : (trail.join next).idle = (trail.idle && next.idle) := by
  unfold join
  split
  · rename_i source label single
    obtain ⟨target, rfl⟩ := single?_of_isOpen opens single
    simp [idle, Label.passes]
  · exact idle_append next trail

theorem core_join_left (opens : trail.IsOpen) (next : Trail) (works : Bool) :
    trail.core false ⊆ (trail.join next).core works := by
  unfold join
  split
  · rename_i source label single
    obtain ⟨target, rfl⟩ := single?_of_isOpen opens single
    have last : (Trail.step target .epsilon .done).core false = [] := rfl
    rw [core, last, core]
    cases label.passes with
    | false => simp
    | true => exact List.nil_subset _
  · rw [core_append]
    exact List.subset_append_of_subset_left _ (trail.core_subset _)

theorem core_join_right (trail next : Trail) (works : Bool) : next.core works ⊆ (trail.join next).core works := by
  unfold join
  split
  · rename_i source label _
    have shape : (Trail.step source label .done).append next = .step source label next := rfl
    rw [← shape, core_append]
    exact List.subset_append_right _ _
  · rw [core_append]
    exact List.subset_append_right _ _

theorem idle_joinAll : ∀ {trails : List Trail}, (∀ trail ∈ trails, trail.IsOpen) →
    (joinAll trails).idle = trails.all idle
  | [], _ => rfl
  | [_], _ => by simp [joinAll]
  | trail :: next :: rest, opens => by
      rw [List.forall_mem_cons] at opens
      rw [joinAll, idle_join opens.1, idle_joinAll opens.2, List.all_cons, List.all_cons, List.all_cons]

theorem core_joinAll_head (opens : trail.IsOpen) (trails : List Trail) (works : Bool) :
    trail.core false ⊆ (joinAll (trail :: trails)).core works := by
  cases trails with
  | nil => exact trail.core_subset works
  | cons next rest => exact core_join_left opens _ works

theorem core_joinAll_tail (trail : Trail) (trails : List Trail) (works : Bool) :
    (joinAll trails).core works ⊆ (joinAll (trail :: trails)).core works := by
  cases trails with
  | nil => exact List.nil_subset _
  | cons next rest => exact core_join_right trail _ works

end Joining

/-- The states around a block stay, a single one may go with its beginning if that only leads on. -/
theorem core_of_opening {trail : Trail} {id : StateId} (member : id ∈ trail.opening) :
    id ∈ trail.core false ∨ trail.first? = some id := by
  cases trail with
  | done => cases member
  | step | gap => exact Or.inr (congrArg some (List.mem_singleton.mp member).symm)
  | block => exact Or.inl (List.mem_append_left _ member)

end Trail

end GrammarNetwork
