import GrammarNetwork.Proofs.Occurrences
import GrammarNetwork.Proofs.Plots

/-! Straight trails: where there is no block, a pass takes out at most the last state of an alternative. So the states
of the elements stay in a rule without blocks inside it. -/

namespace GrammarNetwork

/-- There is no block on the trail. -/
def Trail.straight : Trail → Bool
  | .done => true
  | .step _ _ rest | .gap _ rest => rest.straight
  | .block .. => false

/-- The states of the trail before its last one. -/
def Trail.early (trail : Trail) : List StateId :=
  trail.ids.dropLast

namespace Trail

variable {trail next : Trail} {id : StateId}

end Trail

/-- There are no blocks inside the rule. -/
def Rule.IsFlat (rule : Rule) : Prop :=
  ∀ element ∈ rule.elements, element.block? = none

section Plots

variable {plan : Plan} {index : Nat} {places : Site → Bool} {site : Site} {element : Element}

/-- The trail of an alternative in a rule without blocks. -/
structure Trail.IsFlat (trail : Trail) : Prop where
  straight : trail.straight = true
  some : trail ≠ .done

theorem Trail.IsFlat.mark {trail : Trail} (flat : trail.IsFlat) : trail.mark.IsFlat := by
  obtain ⟨straight, some⟩ := flat
  cases trail with
  | done => exact absurd rfl some
  | block => cases straight
  | step | gap => exact ⟨straight, Trail.noConfusion⟩

namespace Plan

end Plan

end Plots

end GrammarNetwork
