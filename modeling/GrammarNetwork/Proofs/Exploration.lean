import Mathlib.Data.Finset.NAry
import GrammarNetwork.Proofs.Closed
import GrammarNetwork.Proofs.Membership

/-! Exploration: the lookahead goes all the steps that its guard allows, from every state and stack that it comes
to. Its depth is no limit, since there are fewer states with their stacks. -/

namespace GrammarNetwork

/-- Where the search is, with what it may not call and where its calls come back to. -/
structure Probe where
  called : List Nat
  id : StateId
  stack : List StateId

/-- What the search remembers of the place. -/
def Probe.key (probe : Probe) : List StateId :=
  probe.id :: probe.stack

namespace Network

/-- The rule that a state belongs to. -/
def ruleOf? (network : Network) (id : StateId) : Option Nat :=
  (network.state? id).bind State.rule

/-- What may not be called after coming back to `follow`. -/
def afterReturn (network : Network) (called : List Nat) (follow : StateId) : List Nat :=
  ((network.ruleOf? follow).map called.erase).getD called

/-- A step of the search. It ends at `stop` when it is in no call. -/
inductive Steps (network : Network) (stop : Option StateId) : Probe → Probe → Prop
  | pass {called : List Nat} {id : StateId} {stack : List StateId} {state : State} {transition : Transition}
      (goes : ¬(stop = some id ∧ stack = [])) (found : network.state? id = some state)
      (inner : state.kind ≠ .ruleStop) (leaves : transition ∈ state.transitions)
      (plain : transition.label.isCall = false) (silent : transition.label.isEpsilon = true) :
      Steps network stop ⟨called, id, stack⟩ ⟨called, transition.target, stack⟩
  | enter {called : List Nat} {id : StateId} {stack : List StateId} {state : State} {transition : Transition}
      {rule : Nat} {level : Int} {follow : StateId} (goes : ¬(stop = some id ∧ stack = []))
      (found : network.state? id = some state) (inner : state.kind ≠ .ruleStop)
      (leaves : transition ∈ state.transitions) (calls : transition.label = .call rule level follow)
      (allowed : rule ∉ called) :
      Steps network stop ⟨called, id, stack⟩ ⟨rule :: called, transition.target, follow :: stack⟩
  | back {called : List Nat} {id follow : StateId} {stack : List StateId} {state : State}
      (found : network.state? id = some state) (ends : state.kind = .ruleStop) :
      Steps network stop ⟨called, id, follow :: stack⟩ ⟨network.afterReturn called follow, follow, stack⟩

/-- At the end of a rule the search only goes back to where the rule was called. -/
theorem Steps.of_stop {network : Network} {stop : Option StateId} {called : List Nat} {id : StateId}
    {stack : List StateId} {next : Probe} {state : State} (steps : network.Steps stop ⟨called, id, stack⟩ next)
    (found : network.state? id = some state) (ends : state.kind = .ruleStop) : ∃ follow below,
      stack = follow :: below ∧ next = ⟨network.afterReturn called follow, follow, below⟩ := by
  cases steps with
  | pass _ other inner | enter _ other inner =>
      rw [found] at other
      cases other
      exact absurd ends inner
  | back => exact ⟨_, _, rfl, rfl⟩

/-- The search comes to the place when it starts at `start`. -/
def Visits (network : Network) (stop : Option StateId) (start : StateId) (probe : Probe) : Prop :=
  Relation.ReflTransGen (network.Steps stop) ⟨[], start, []⟩ probe

/-- The calls on the transitions: the rule that is called and where the call comes back to. -/
def callSites (network : Network) : List (Nat × StateId) :=
  network.states.toList.flatMap fun slot =>
    ((slot.map State.transitions).getD []).filterMap fun transition =>
      match transition.label with
      | .call rule _ follow => some (rule, follow)
      | _ => none

theorem length_callSites (network : Network) : network.callSites.length = network.callCount := by
  have sum : ∀ (slots : List (Option State)) (count : Nat),
      slots.foldl (fun count slot => count + slotCallCount slot) count =
        count + (slots.map slotCallCount).sum := by
    intro slots
    induction slots with
    | nil => simp
    | cons slot slots ih =>
        intro count
        rw [List.foldl_cons, ih, List.map_cons, List.sum_cons, Nat.add_assoc]
  rw [callCount, ← Array.foldl_toList, sum, Nat.zero_add, callSites, List.length_flatMap]
  congr 2
  funext slot
  rw [slotCallCount, List.length_filterMap_eq_countP]
  congr 1
  funext transition
  cases transition.label <;> rfl

theorem mem_callSites {network : Network} {id : StateId} {state : State} {transition : Transition} {rule : Nat}
    {level : Int} {follow : StateId} (found : network.state? id = some state)
    (leaves : transition ∈ state.transitions) (calls : transition.label = .call rule level follow) :
    (rule, follow) ∈ network.callSites := by
  have slot : some state ∈ network.states.toList := by
    rw [state?, Option.join_eq_some_iff] at found
    exact Array.mem_toList_iff.mpr (Array.mem_of_getElem? found)
  refine List.mem_flatMap.mpr ⟨_, slot, List.mem_filterMap.mpr ⟨transition, leaves, ?_⟩⟩
  simp [calls]

theorem Closed.isLive_callSite {network : Network} (closed : network.Closed) {site : Nat × StateId}
    (listed : site ∈ network.callSites) : network.isLive site.2 = true := by
  obtain ⟨slot, inside, made⟩ := List.mem_flatMap.mp listed
  obtain ⟨transition, leaves, calls⟩ := List.mem_filterMap.mp made
  obtain ⟨id, there⟩ := Array.getElem?_of_mem (Array.mem_toList_iff.mp inside)
  cases slot with
  | none => simp at leaves
  | some state =>
      have found : network.state? id = some state := by simp [state?, there]
      split at calls
      · rename_i rule level follow labelled
        cases calls
        exact closed.follows id state found transition leaves rule level follow labelled
      · cases calls

theorem afterReturn_subset (network : Network) (called : List Nat) (follow : StateId) :
    network.afterReturn called follow ⊆ called := by
  unfold afterReturn
  cases network.ruleOf? follow with
  | none => exact fun _ member => member
  | some rule => exact List.erase_subset

theorem nodup_afterReturn {network : Network} {called : List Nat} (once : called.Nodup) (follow : StateId) :
    (network.afterReturn called follow).Nodup := by
  unfold afterReturn
  cases network.ruleOf? follow with
  | none => exact once
  | some rule => exact once.erase rule

theorem length_afterReturn (network : Network) (called : List Nat) (follow : StateId) :
    called.length ≤ (network.afterReturn called follow).length + 1 := by
  unfold afterReturn
  cases network.ruleOf? follow with
  | none => exact Nat.le_succ _
  | some rule =>
      have erased := List.length_erase (a := rule) (l := called)
      simp only [Option.map_some, Option.getD_some, erased]
      split <;> omega

/-- The place is one of those that the depth is reckoned with: the state is there, the stack comes from calls,
and each call on it is of another rule. -/
structure Covers (network : Network) (probe : Probe) : Prop where
  live : network.isLive probe.id = true
  follows : ∀ id ∈ probe.stack, id ∈ network.callSites.map Prod.snd
  callees : probe.called ⊆ network.callSites.map Prod.fst
  once : probe.called.Nodup
  deep : probe.stack.length ≤ probe.called.length

namespace Covers

variable {network : Network} {stop : Option StateId} {probe next : Probe}

theorem step (closed : network.Closed) (covers : network.Covers probe) (steps : network.Steps stop probe next) :
    network.Covers next := by
  cases steps with
  | pass _ found _ leaves =>
      exact ⟨closed.targets _ _ found _ leaves, covers.follows, covers.callees, covers.once, covers.deep⟩
  | enter _ found _ leaves calls allowed =>
      have site := mem_callSites found leaves calls
      refine ⟨closed.targets _ _ found _ leaves, ?_, ?_, covers.once.cons allowed, Nat.succ_le_succ covers.deep⟩
      · exact List.forall_mem_cons.mpr ⟨List.mem_map_of_mem site, covers.follows⟩
      · exact List.cons_subset.mpr ⟨List.mem_map_of_mem site, covers.callees⟩
  | @back called id follow stack _ _ _ =>
      obtain ⟨atFollow, below⟩ := List.forall_mem_cons.mp covers.follows
      obtain ⟨site, listed, rfl⟩ := List.mem_map.mp atFollow
      refine ⟨closed.isLive_callSite listed, below, ?_, nodup_afterReturn covers.once _, ?_⟩
      · exact List.Subset.trans (network.afterReturn_subset called _) covers.callees
      · have deep : stack.length + 1 ≤ called.length := covers.deep
        have least := network.length_afterReturn called site.2
        simp only
        omega

theorem visits (closed : network.Closed) {start : StateId} (live : network.isLive start = true)
    (visits : network.Visits stop start probe) : network.Covers probe := by
  induction visits with
  | refl => exact ⟨live, by simp, by simp, List.nodup_nil, Nat.le_refl _⟩
  | tail _ steps ih => exact ih.step closed steps

end Covers

/-- The lists of at most so many of the symbols. -/
def shortStacks (symbols : Finset StateId) : Nat → Finset (List StateId)
  | 0 => {[]}
  | length + 1 => insert [] (Finset.image₂ (· :: ·) symbols (shortStacks symbols length))

theorem mem_shortStacks {symbols : Finset StateId} : ∀ {length : Nat} {stack : List StateId},
    (∀ id ∈ stack, id ∈ symbols) → stack.length ≤ length → stack ∈ shortStacks symbols length
  | 0, [], _, _ => Finset.mem_singleton_self _
  | _ + 1, [], _, _ => Finset.mem_insert_self _ _
  | _ + 1, id :: stack, inside, short => by
      rw [List.forall_mem_cons] at inside
      exact Finset.mem_insert_of_mem (Finset.mem_image₂_of_mem inside.1
        (mem_shortStacks inside.2 (Nat.le_of_succ_le_succ short)))

theorem card_shortStacks (symbols : Finset StateId) (length : Nat) :
    (shortStacks symbols length).card ≤ (symbols.card + 1) ^ length := by
  induction length with
  | zero => exact Nat.le_refl 1
  | succ length ih =>
      calc (shortStacks symbols (length + 1)).card
          ≤ (Finset.image₂ (· :: ·) symbols (shortStacks symbols length)).card + 1 := Finset.card_insert_le _ _
        _ ≤ symbols.card * (shortStacks symbols length).card + 1 := Nat.succ_le_succ (Finset.card_image₂_le _ _ _)
        _ ≤ symbols.card * (symbols.card + 1) ^ length + (symbols.card + 1) ^ length :=
            Nat.add_le_add (Nat.mul_le_mul_left _ ih) (Nat.one_le_pow _ _ (Nat.succ_pos _))
        _ = (symbols.card + 1) ^ (length + 1) := by
            rw [Nat.pow_succ, Nat.mul_comm _ (symbols.card + 1), Nat.succ_mul]

/-- All states with all stacks that the search may come to. -/
def places (network : Network) : Finset (List StateId) :=
  Finset.image₂ (· :: ·) (Finset.range network.states.size)
    (shortStacks (network.callSites.map Prod.snd).toFinset network.callCount)

theorem card_places (network : Network) : network.places.card < network.lookDepth := by
  have symbols : (network.callSites.map Prod.snd).toFinset.card ≤ network.callCount := by
    rw [← network.length_callSites, ← List.length_map Prod.snd]
    exact List.toFinset_card_le _
  rw [lookDepth, Nat.lt_succ_iff]
  calc network.places.card
      ≤ (Finset.range network.states.size).card * _ := Finset.card_image₂_le _ _ _
    _ ≤ network.states.size * ((network.callSites.map Prod.snd).toFinset.card + 1) ^ network.callCount := by
        rw [Finset.card_range]
        exact Nat.mul_le_mul_left _ (card_shortStacks _ _)
    _ ≤ network.states.size * Nat.pow (network.callCount + 1) network.callCount :=
        Nat.mul_le_mul_left _ (Nat.pow_le_pow_left (Nat.succ_le_succ symbols) _)

theorem mem_places {network : Network} {id : StateId} {state : State} {stack : List StateId}
    (found : network.state? id = some state) (follows : ∀ id ∈ stack, id ∈ network.callSites.map Prod.snd)
    (few : stack.length ≤ network.callCount) : id :: stack ∈ network.places := by
  refine Finset.mem_image₂_of_mem (Finset.mem_range.mpr (network.lt_nextId_of_state? found)) ?_
  exact mem_shortStacks (fun id member => List.mem_toFinset.mpr (follows id member)) few

theorem Covers.mem_places {network : Network} {probe : Probe} (covers : network.Covers probe) :
    probe.key ∈ network.places := by
  obtain ⟨state, found⟩ := network.isLive_iff.mp covers.live
  have few : probe.called.length ≤ network.callCount := by
    rw [← network.length_callSites, ← List.length_map Prod.fst]
    exact (covers.once.subperm covers.callees).length_le
  exact Network.mem_places found covers.follows (Nat.le_trans covers.deep few)

/-- The search has gone all steps from the place, and noticed whether it is where the search ends. -/
structure Explored (network : Network) (stop : Option StateId) (search : LookSearch) (probe : Probe) : Prop where
  steps : ∀ next, network.Steps stop probe next → search.busy.contains next.key = true
  ends : stop = some probe.id → probe.stack = [] → search.look.contains emptyWord = true

/-- From one moment of the search to a later one nothing is forgotten, and what is new is explored. -/
structure Spreads (network : Network) (stop : Option StateId) (start : StateId) (before after : LookSearch) :
    Prop where
  busy : ∀ key, before.busy.contains key = true → after.busy.contains key = true
  look : before.look.contains emptyWord = true → after.look.contains emptyWord = true
  explored : ∀ key, after.busy.contains key = true → before.busy.contains key = false →
    ∃ probe, probe.key = key ∧ network.Visits stop start probe ∧ network.Explored stop after probe

/-- How many places the search has not come to. -/
def unseen (network : Network) (search : LookSearch) : Nat :=
  (network.places.filter fun key => search.busy.contains key = false).card

theorem unseen_le {network : Network} {before after : LookSearch}
    (kept : ∀ key, before.busy.contains key = true → after.busy.contains key = true) :
    network.unseen after ≤ network.unseen before := by
  refine Finset.card_le_card (Finset.monotone_filter_right _ fun key _ absent => ?_)
  rw [← Bool.not_eq_true] at absent ⊢
  exact fun known => absent (kept key known)

section Spreading

variable {network : Network} {stop : Option StateId} {start : StateId} {before middle after : LookSearch}

theorem Explored.later {probe : Probe} (explored : network.Explored stop before probe)
    (spreads : network.Spreads stop start before after) : network.Explored stop after probe where
  steps next step := spreads.busy _ (explored.steps next step)
  ends last top := spreads.look (explored.ends last top)

namespace Spreads

theorem refl (search : LookSearch) : network.Spreads stop start search search where
  busy _ there := there
  look there := there
  explored _ there absent := by
    rw [there] at absent
    cases absent

theorem trans (first : network.Spreads stop start before middle) (second : network.Spreads stop start middle after) :
    network.Spreads stop start before after where
  busy key there := second.busy key (first.busy key there)
  look there := second.look (first.look there)
  explored key there absent := by
    cases known : middle.busy.contains key with
    | false => exact second.explored key there known
    | true =>
        obtain ⟨probe, same, visits, explored⟩ := first.explored key known absent
        exact ⟨probe, same, visits, explored.later second⟩

theorem unseen_le (spreads : network.Spreads stop start before after) :
    network.unseen after ≤ network.unseen before :=
  Network.unseen_le spreads.busy

theorem addSymbols (search : LookSearch) (symbols : IntervalSet) :
    network.Spreads stop start search (search.addSymbols symbols) where
  busy _ there := there
  look there := IntervalSet.contains_union.mpr (Or.inl there)
  explored _ there absent := by
    rw [LookSearch.addSymbols] at there
    rw [there] at absent
    cases absent

theorem addSymbol (search : LookSearch) (symbol : Int) :
    network.Spreads stop start search (search.addSymbol symbol) where
  busy _ there := there
  look there := IntervalSet.contains_insert.mpr (Or.inr there)
  explored _ there absent := by
    rw [LookSearch.addSymbol] at there
    rw [there] at absent
    cases absent

end Spreads

theorem contains_enter {search : LookSearch} {id : StateId} {stack key : List StateId} :
    (search.enter id stack).busy.contains key = true ↔ id :: stack = key ∨ search.busy.contains key = true := by
  simp [LookSearch.enter, Std.TreeSet.contains_insert]

theorem unseen_enter {search : LookSearch} {id : StateId} {stack : List StateId}
    (covers : id :: stack ∈ network.places) (fresh : search.busy.contains (id :: stack) = false) :
    network.unseen (search.enter id stack) < network.unseen search := by
  refine Finset.card_lt_card (Finset.ssubset_iff_of_subset ?_ |>.mpr ?_)
  · refine Finset.monotone_filter_right _ fun key _ absent => ?_
    cases known : search.busy.contains key with
    | false => rfl
    | true =>
        rw [contains_enter.mpr (Or.inr known)] at absent
        cases absent
  · refine ⟨id :: stack, Finset.mem_filter.mpr ⟨covers, fresh⟩, fun other => ?_⟩
    have absent := (Finset.mem_filter.mp other).2
    rw [contains_enter.mpr (Or.inl rfl)] at absent
    cases absent

/-- The search has spread when it has entered a place and explored it. -/
theorem Spreads.enter {probe : Probe} (visits : network.Visits stop start probe)
    (spreads : network.Spreads stop start (before.enter probe.id probe.stack) after)
    (explored : network.Explored stop after probe) : network.Spreads stop start before after where
  busy key there := spreads.busy key (contains_enter.mpr (Or.inr there))
  look there := spreads.look there
  explored key there absent := by
    by_cases same : probe.key = key
    · exact ⟨probe, same, visits, explored⟩
    · refine spreads.explored key there ?_
      rw [Bool.eq_false_iff] at absent ⊢
      exact fun known => (contains_enter.mp known).elim same absent

theorem Spreads.foldl {along : LookSearch → Transition → LookSearch} (leads : Transition → List StateId → Prop)
    {bound : Nat} (transitions : List Transition)
    (each : ∀ transition ∈ transitions, ∀ search, network.unseen search < bound →
      network.Spreads stop start search (along search transition) ∧
        ∀ key, leads transition key → (along search transition).busy.contains key = true) :
    ∀ search, network.unseen search < bound → network.Spreads stop start search (transitions.foldl along search) ∧
      ∀ transition ∈ transitions, ∀ key, leads transition key →
        (transitions.foldl along search).busy.contains key = true := by
  induction transitions with
  | nil => exact fun search _ => ⟨.refl search, by simp⟩
  | cons transition transitions ih =>
      intro search few
      rw [List.forall_mem_cons] at each
      obtain ⟨spreads, here⟩ := each.1 search few
      obtain ⟨later, there⟩ := ih each.2 (along search transition) (Nat.lt_of_le_of_lt spreads.unseen_le few)
      exact ⟨spreads.trans later,
        List.forall_mem_cons.mpr ⟨fun key leads => later.busy key (here key leads), there⟩⟩

/-- Where the search goes along a transition. -/
def GoesTo (called : List Nat) (stack : List StateId) (transition : Transition) (key : List StateId) : Prop :=
  match transition.label with
  | .call rule _ follow => rule ∉ called ∧ key = transition.target :: follow :: stack
  | label => label.isEpsilon = true ∧ key = transition.target :: stack

/-- The search spreads from a state that it does not end at along the transitions of the state. -/
theorem Spreads.transitions {called : List Nat} {id : StateId} {stack : List StateId} {state : State}
    (visits : network.Visits stop start ⟨called, id, stack⟩) (goes : ¬(stop = some id ∧ stack = []))
    (found : network.state? id = some state) (inner : state.kind ≠ .ruleStop)
    {along : LookSearch → Transition → LookSearch} {search : LookSearch} {bound : Nat}
    (few : network.unseen (search.enter id stack) < bound)
    (each : ∀ transition ∈ state.transitions, ∀ search, network.unseen search < bound →
      network.Spreads stop start search (along search transition) ∧
        ∀ key, GoesTo called stack transition key → (along search transition).busy.contains key = true) :
    network.Spreads stop start search (state.transitions.foldl along (search.enter id stack)) ∧
      (state.transitions.foldl along (search.enter id stack)).busy.contains (id :: stack) = true := by
  obtain ⟨spreads, there⟩ := Spreads.foldl _ state.transitions each (search.enter id stack) few
  refine ⟨.enter visits spreads ⟨fun next steps => ?_, fun last top => absurd ⟨last, top⟩ goes⟩,
    spreads.busy _ (contains_enter.mpr (Or.inl rfl))⟩
  cases steps with
  | @pass _ _ _ _ transition _ other _ leaves plain silent =>
      rw [found] at other
      cases other
      refine there transition leaves _ ?_
      unfold GoesTo
      split
      · rename_i called
        simp [called, Label.isCall] at plain
      · exact ⟨silent, rfl⟩
  | @enter _ _ _ _ transition rule level follow _ other _ leaves calls allowed =>
      rw [found] at other
      cases other
      refine there transition leaves _ ?_
      simp only [GoesTo, calls]
      exact ⟨allowed, rfl⟩
  | back other ends =>
      rw [found] at other
      cases other
      exact absurd ends inner

/-- The search spreads from a place, if it may go deep enough for all that it has not come to. -/
theorem spreads_lookFrom (closed : network.Closed) (live : network.isLive start = true) (depth : Nat) :
    ∀ (probe : Probe) (search : LookSearch), network.Visits stop start probe → network.unseen search < depth →
    network.Spreads stop start search (network.lookFrom stop depth probe.called probe.stack probe.id search) ∧
      (network.lookFrom stop depth probe.called probe.stack probe.id search).busy.contains probe.key = true := by
  induction depth with
  | zero => exact fun _ search _ few => absurd few (Nat.not_lt_zero _)
  | succ depth ih =>
      rintro ⟨called, id, stack⟩ search visits few
      have covers := Covers.visits closed live visits
      obtain ⟨state, found⟩ := network.isLive_iff.mp covers.live
      simp only [lookFrom, found]
      split
      · rename_i known
        exact ⟨.refl search, known⟩
      · rename_i fresh
        have fresh : search.busy.contains (id :: stack) = false := Bool.eq_false_iff.mpr fresh
        -- The place is new and one of finitely many, so the depth is enough for what comes behind it.
        have fewer : network.unseen (search.enter id stack) < depth :=
          Nat.lt_of_lt_of_le (unseen_enter covers.mem_places fresh) (Nat.le_of_lt_succ few)
        have entered : (search.enter id stack).busy.contains (id :: stack) = true :=
          contains_enter.mpr (Or.inl rfl)
        have noticed : network.Spreads stop start (search.enter id stack)
            ((search.enter id stack).addSymbol emptyWord) := .addSymbol _ _
        -- At the place where it ends, at the end of a rule, or at another state.
        split
        · rename_i last
          refine ⟨.enter visits noticed ⟨fun next steps => ?_, fun _ _ => ?_⟩, noticed.busy _ entered⟩
          · cases steps with
            | pass goes | enter goes => exact absurd last goes
            | back => cases last.2
          · exact IntervalSet.contains_insert.mpr (Or.inl rfl)
        · rename_i goes
          split
          · rename_i ends
            cases stack with
            | nil =>
                refine ⟨.enter visits noticed ⟨fun next steps => ?_, fun last top => absurd ⟨last, top⟩ goes⟩,
                  noticed.busy _ entered⟩
                obtain ⟨_, _, same, _⟩ := steps.of_stop found ends
                cases same
            | cons follow rest =>
                have returns : network.Visits stop start ⟨network.afterReturn called follow, follow, rest⟩ :=
                  visits.tail (.back found ends)
                obtain ⟨spreads, there⟩ := ih _ (search.enter id (follow :: rest)) returns fewer
                refine ⟨.enter visits spreads ⟨fun next steps => ?_, fun _ top => ?_⟩, spreads.busy _ entered⟩
                · obtain ⟨_, _, same, rfl⟩ := steps.of_stop found ends
                  cases same
                  exact there
                · cases top
          · rename_i inner
            refine Spreads.transitions visits goes found inner fewer fun transition leaves search few => ?_
            simp only [GoesTo]
            cases labelled : transition.label with
            | call rule level follow =>
                simp only
                split
                · rename_i refused
                  exact ⟨.refl search, fun key leads => absurd refused leads.1⟩
                · rename_i allowed
                  have goesIn := visits.tail (.enter goes found inner leaves labelled allowed)
                  obtain ⟨spreads, there⟩ := ih _ search goesIn few
                  exact ⟨spreads, fun key leads => leads.2 ▸ there⟩
            | epsilon | action | predicate | precedence =>
                have goesOn : network.Visits stop start ⟨called, transition.target, stack⟩ :=
                  visits.tail (.pass goes found inner leaves (by rw [labelled]; rfl) (by rw [labelled]; rfl))
                obtain ⟨spreads, there⟩ := ih _ search goesOn few
                exact ⟨spreads, fun key leads => leads.2 ▸ there⟩
            | wildcard | notSet | atom | range | set =>
                exact ⟨.addSymbols search _, fun key leads => by cases leads.1⟩

/-- The lookahead from a state that is there: whatever it comes to is explored. -/
theorem look_explores (closed : network.Closed) (live : network.isLive start = true) :
    ∃ search : LookSearch, network.look start stop = search.look ∧ search.busy.contains [start] = true ∧
      ∀ key, search.busy.contains key = true →
        ∃ probe, probe.key = key ∧ network.Visits stop start probe ∧ network.Explored stop search probe := by
  have few : network.unseen {} < network.lookDepth :=
    Nat.lt_of_le_of_lt (Finset.card_filter_le _ _) network.card_places
  obtain ⟨spreads, there⟩ := spreads_lookFrom closed live network.lookDepth ⟨[], start, []⟩ {} .refl few
  exact ⟨_, rfl, there, fun key known => spreads.explored key known Std.TreeSet.contains_emptyc⟩

end Spreading

end Network

end GrammarNetwork
