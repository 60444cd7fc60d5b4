import GrammarNetwork.Proofs.Canonical
import GrammarNetwork.Proofs.Emptiness
import GrammarNetwork.Proofs.Exploration
import GrammarNetwork.Proofs.Runs

/-! Justification: what the lookahead finds is backed by a run. The search goes only where a run can go that matches
nothing on its way, and adds a symbol only where such a run ends or can match the symbol. -/

namespace GrammarNetwork

namespace Network

/-- A step of a run that matches nothing, whatever it runs. Outside of calls the run does not go on from `stop`. -/
def Seeks (network : Network) (stop : Option StateId) (first next : Configuration) : Prop :=
  ¬(stop = some first.state ∧ first.stack = []) ∧
    ∃ word, (∀ letter ∈ word, letter.isEvent = true) ∧ network.Moves (fun _ => none) first word next

/-- Why a run that has come here has found the symbol: it is over without a symbol, or it can match this one next. -/
inductive Justifies (network : Network) (stop : Option StateId) : Configuration → Int → Prop
  | stop {id : StateId} {state : State} (last : stop = some id) (found : network.state? id = some state) :
      Justifies network stop ⟨id, []⟩ emptyWord
  | ruleEnd {id : StateId} {state : State} (found : network.state? id = some state) (ends : state.kind = .ruleStop) :
      Justifies network stop ⟨id, []⟩ emptyWord
  | consumes {id : StateId} {stack : List StateId} {state : State} {transition : Transition} {symbol : Int}
      (goes : ¬(stop = some id ∧ stack = [])) (found : network.state? id = some state)
      (inner : state.kind ≠ .ruleStop) (leaves : transition ∈ state.transitions)
      (emits : transition.label.Emits network.vocabulary none [.symbol symbol]) :
      Justifies network stop ⟨id, stack⟩ symbol

section Search

variable {network : Network} {stop : Option StateId} {start : StateId} {search : LookSearch}

/-- A step of the search is a move of the network that brings no symbol. -/
theorem Steps.moves {probe next : Probe} (steps : network.Steps stop probe next) :
    ∃ word, (∀ letter ∈ word, letter.isEvent = true) ∧
      network.Moves (fun _ => none) ⟨probe.id, probe.stack⟩ word ⟨next.id, next.stack⟩ := by
  cases steps with
  | @pass _ _ _ _ transition _ found inner leaves plain silent =>
      have empty : MatchesNothing (transition.label.words network.vocabulary (fun _ => 0) none) :=
        (Label.matchesNothing_iff plain).mpr silent
      obtain ⟨word, member, events⟩ := empty
      exact ⟨word, events, .take found inner leaves ((Label.mem_words plain).mp member)⟩
  | enter _ found inner leaves calls => exact ⟨[], by simp, .call found inner leaves calls⟩
  | back found ends => exact ⟨[], by simp, .back found ends⟩

theorem Steps.seeks {probe next : Probe} (steps : network.Steps stop probe next) :
    network.Seeks stop ⟨probe.id, probe.stack⟩ ⟨next.id, next.stack⟩ := by
  refine ⟨?_, steps.moves⟩
  cases steps with
  | pass goes | enter goes => exact goes
  | back => exact fun last => nomatch last.2

theorem Visits.seeks {probe : Probe} (visits : network.Visits stop start probe) :
    Relation.ReflTransGen (network.Seeks stop) ⟨start, []⟩ ⟨probe.id, probe.stack⟩ :=
  visits.lift (fun probe : Probe => (⟨probe.id, probe.stack⟩ : Configuration)) fun _ _ steps => steps.seeks

/-- The symbol is justified where the search can come to. -/
def Backs (network : Network) (stop : Option StateId) (start : StateId) (symbol : Int) : Prop :=
  ∃ probe, network.Visits stop start probe ∧ network.Justifies stop ⟨probe.id, probe.stack⟩ symbol

/-- All that the search has found is backed. -/
def Justified (network : Network) (stop : Option StateId) (start : StateId) (search : LookSearch) : Prop :=
  ∀ symbol, search.look.contains symbol = true → network.Backs stop start symbol

namespace Justified

theorem addSymbol (justified : network.Justified stop start search) {symbol : Int}
    (backs : network.Backs stop start symbol) : network.Justified stop start (search.addSymbol symbol) := by
  intro other found
  rcases IntervalSet.contains_insert.mp found with rfl | old
  · exact backs
  · exact justified other old

theorem addSymbols (justified : network.Justified stop start search) {symbols : IntervalSet}
    (backs : ∀ symbol, symbols.contains symbol = true → network.Backs stop start symbol) :
    network.Justified stop start (search.addSymbols symbols) := by
  intro symbol found
  rcases IntervalSet.contains_union.mp found with old | added
  · exact justified symbol old
  · exact backs symbol added

theorem foldl {along : LookSearch → Transition → LookSearch} {transitions : List Transition}
    (each : ∀ transition ∈ transitions, ∀ search, network.Justified stop start search →
      network.Justified stop start (along search transition)) :
    ∀ search, network.Justified stop start search →
      network.Justified stop start (transitions.foldl along search) := by
  induction transitions with
  | nil => exact fun _ justified => justified
  | cons transition transitions ih =>
      rw [List.forall_mem_cons] at each
      exact fun search justified => ih each.2 _ (each.1 search justified)

end Justified

/-- What the search finds from a place that it has come to is backed. -/
theorem justified_lookFrom (depth : Nat) : ∀ (probe : Probe) (search : LookSearch),
    network.Visits stop start probe → network.Justified stop start search →
    network.Justified stop start (network.lookFrom stop depth probe.called probe.stack probe.id search) := by
  induction depth with
  | zero => exact fun _ _ _ justified => justified
  | succ depth ih =>
      rintro ⟨called, id, stack⟩ search visits justified
      simp only [lookFrom]
      split
      · exact justified
      cases found : network.state? id with
      | none => exact justified
      | some state =>
          simp only
          split
          · rename_i last
            obtain ⟨last, rfl⟩ := last
            exact Justified.addSymbol justified ⟨_, visits, .stop last found⟩
          · rename_i goes
            split
            · rename_i ends
              cases stack with
              | nil => exact Justified.addSymbol justified ⟨_, visits, .ruleEnd found ends⟩
              | cons follow rest =>
                  have returns : network.Visits stop start ⟨network.afterReturn called follow, follow, rest⟩ :=
                    visits.tail (.back found ends)
                  exact ih _ _ returns justified
            · rename_i inner
              refine Justified.foldl (fun transition leaves search justified => ?_) _ justified
              -- What a label adds is what it matches, and the place is where it is matched; the rest is for the induction.
              have matched : ∀ symbol, transition.label.Emits network.vocabulary none [.symbol symbol] →
                  network.Backs stop start symbol :=
                fun symbol emits => ⟨_, visits, .consumes goes found inner leaves emits⟩
              cases labelled : transition.label with
              | call rule level follow =>
                  simp only
                  split
                  · exact justified
                  · rename_i allowed
                    exact ih _ search (visits.tail (.enter goes found inner leaves labelled allowed)) justified
              | epsilon | action | predicate | precedence =>
                  have goesOn : network.Visits stop start ⟨called, transition.target, stack⟩ :=
                    visits.tail (.pass goes found inner leaves (by rw [labelled]; rfl) (by rw [labelled]; rfl))
                  exact ih _ search goesOn justified
              | wildcard =>
                  rw [labelled] at matched
                  exact justified.addSymbols fun symbol member => matched symbol ⟨symbol, member, rfl⟩
              | notSet excluded =>
                  rw [labelled] at matched
                  refine justified.addSymbols fun symbol member => matched symbol ?_
                  obtain ⟨inside, left⟩ := IntervalSet.contains_complement.mp member
                  exact ⟨symbol, inside, left, rfl⟩
              | atom only =>
                  rw [labelled] at matched
                  refine justified.addSymbols fun symbol member => matched symbol ?_
                  obtain ⟨lower, upper⟩ := IntervalSet.contains_ofRange.mp member
                  rw [Int.le_antisymm upper lower]
                  rfl
              | range first last =>
                  rw [labelled] at matched
                  refine justified.addSymbols fun symbol member => matched symbol ?_
                  obtain ⟨lower, upper⟩ := IntervalSet.contains_ofRange.mp member
                  exact ⟨symbol, lower, upper, rfl⟩
              | set symbols =>
                  rw [labelled] at matched
                  exact justified.addSymbols fun symbol member => matched symbol ⟨symbol, member, rfl⟩

theorem backs_of_look {symbol : Int} (found : (network.look start stop).contains symbol = true) :
    network.Backs stop start symbol := by
  refine justified_lookFrom network.lookDepth ⟨[], start, []⟩ {} .refl (fun other absent => ?_) symbol found
  simp [IntervalSet.contains_iff, IntervalSet.empty] at absent

end Search

/-- In every network, what the lookahead finds is justified at the end of a run from `start` that matches nothing on its
way and does not go beyond `stop`. -/
theorem look_justified (network : Network) (start : StateId) (stop : Option StateId) (symbol : Int)
    (found : (network.look start stop).contains symbol = true) :
    ∃ last, Relation.ReflTransGen (network.Seeks stop) ⟨start, []⟩ last ∧ network.Justifies stop last symbol := by
  obtain ⟨probe, visits, justifies⟩ := backs_of_look found
  exact ⟨_, visits.seeks, justifies⟩

/-- A rule that calls another one and itself, with a way back to its start and a state that was removed. -/
def entangled : Network where
  kind := .parser
  maxTokenType := 4
  states := #[
    some { rule := some 0, kind := .ruleStart 3 false
           transitions := [⟨4, .call 1 0 1⟩, ⟨0, .call 0 0 2⟩, ⟨6, .epsilon⟩] },
    some { rule := some 0, kind := .basic, transitions := [⟨0, .epsilon⟩, ⟨2, .notSet (.ofRange 2 3)⟩] },
    some { rule := some 0, kind := .basic, transitions := [⟨3, .predicate 0 0 false⟩] },
    some { rule := some 0, kind := .ruleStop },
    some { rule := some 1, kind := .ruleStart 5 false, transitions := [⟨5, .action 1 none false⟩, ⟨4, .epsilon⟩] },
    some { rule := some 1, kind := .ruleStop },
    none]

/-- After the call of the second rule the lookahead finds a symbol that is not in the inverted set. -/
theorem entangled_look_justified : (entangled.look 0 (some 2)).contains 4 = true ∧
    ∃ last, Relation.ReflTransGen (entangled.Seeks (some 2)) ⟨0, []⟩ last ∧ entangled.Justifies (some 2) last 4 :=
  have found : (entangled.look 0 (some 2)).contains 4 = true := by decide +kernel
  ⟨found, look_justified entangled 0 (some 2) 4 found⟩

end Network

end GrammarNetwork
