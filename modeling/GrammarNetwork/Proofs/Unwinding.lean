import GrammarNetwork.Proofs.Exploration

/-! Unwinding: the lookahead comes to an end in every network. Here all its calls share one stack of follow states and one
set of rules that may not be called, and nothing bounds how deep they go. Each call changes both back before it returns,
so the stack is never longer than the set is large, and the calls can only come to finitely many places. -/

namespace GrammarNetwork

/-- What the calls of a search share: where the rules they are in go on, and the rules that may not be called. -/
structure Nesting where
  stack : List StateId := []
  called : Finset Nat := ∅

/-- A call of the search that has returned, with what it found when it was entered and left behind when it returned. -/
structure Excursion where
  id : StateId
  entry : Nesting
  exit : Nesting

/-- All that changes during a search. The calls that have returned are kept for the record only, the last one first. -/
structure LookMemory where
  search : LookSearch := {}
  nesting : Nesting := {}
  excursions : List Excursion := []

namespace LookMemory

def push (memory : LookMemory) (follow : StateId) : LookMemory :=
  { memory with nesting := { memory.nesting with stack := follow :: memory.nesting.stack } }

def pop (memory : LookMemory) : LookMemory :=
  { memory with nesting := { memory.nesting with stack := memory.nesting.stack.tail } }

/-- From now on the rule may not be called. -/
def block (memory : LookMemory) (rule : Nat) : LookMemory :=
  { memory with nesting := { memory.nesting with called := insert rule memory.nesting.called } }

/-- From now on the rule may be called. -/
def allow (memory : LookMemory) (rule : Nat) : LookMemory :=
  { memory with nesting := { memory.nesting with called := memory.nesting.called.erase rule } }

def look (memory : LookMemory) (change : LookSearch → LookSearch) : LookMemory :=
  { memory with search := change memory.search }

def record (memory : LookMemory) (id : StateId) (entry : Nesting) : LookMemory :=
  { memory with excursions := ⟨id, entry, memory.nesting⟩ :: memory.excursions }

end LookMemory

namespace Network

/-- Looks from a state, with changes to the memory instead of arguments of its own. A search that never ends has no
result; otherwise the result is the memory when the call returns. -/
def lookInPlace (network : Network) (stop : Option StateId) (id : StateId) (memory : LookMemory) :
    Option LookMemory :=
  (if memory.search.busy.contains (id :: memory.nesting.stack) then some memory
    else
      let entered := memory.look (·.enter id memory.nesting.stack)
      match network.state? id with
      | none => some entered
      | some state =>
          if stop = some id ∧ memory.nesting.stack = [] then some (entered.look (·.addSymbol emptyWord))
          else if state.kind = .ruleStop then
            match memory.nesting.stack with
            | [] => some (entered.look (·.addSymbol emptyWord))
            | follow :: _ => do
                -- only a rule that was blocked before is blocked again
                let returning := (network.ruleOf? follow).filter (· ∈ memory.nesting.called)
                let back ← network |>.lookInPlace stop follow (returning.elim entered.pop entered.pop.allow)
                some ((returning.elim back back.block).push follow)
          else
            state.transitions.foldlM
              (fun memory transition =>
                match transition.label with
                | .call rule _ follow =>
                    if rule ∈ memory.nesting.called then some memory
                    else do
                      let back ← network |>.lookInPlace stop transition.target ((memory.push follow).block rule)
                      some (back.allow rule).pop
                | .wildcard => some (memory.look (·.addSymbols network.vocabulary))
                | .notSet symbols => some (memory.look (·.addSymbols (symbols.complement network.vocabulary)))
                | label =>
                    if label.isEpsilon then network |>.lookInPlace stop transition.target memory
                    else some (memory.look (·.addSymbols (label.symbols?.getD .empty))))
              entered) >>= fun left => some (left.record id memory.nesting)
partial_fixpoint

/-- The rules that transitions call. -/
def callees (network : Network) : Finset Nat :=
  (network.callSites.map Prod.fst).toFinset

theorem card_callees (network : Network) : network.callees.card ≤ network.callCount := by
  rw [← network.length_callSites, ← List.length_map Prod.fst]
  exact List.toFinset_card_le _

/-- Follow states and rules come from calls, and no more calls are open than rules are blocked. -/
structure Nests (network : Network) (nesting : Nesting) : Prop where
  follows : ∀ id ∈ nesting.stack, id ∈ network.callSites.map Prod.snd
  callees : nesting.called ⊆ network.callees
  deep : nesting.stack.length ≤ nesting.called.card

/-- The call was not nested too deep, and it left the nesting as it found it. -/
structure Tidy (network : Network) (excursion : Excursion) : Prop where
  exit : excursion.exit = excursion.entry
  nests : network.Nests excursion.entry

/-- From one moment of the search to a later one tidy calls were made, and it has looked at the places they were made
for and no others. -/
def Logs (network : Network) (before after : LookMemory) : Prop :=
  ∃ made, after.excursions = made ++ before.excursions ∧ (∀ excursion ∈ made, network.Tidy excursion) ∧
    ∀ key, after.search.busy.contains key = true ↔
      before.search.busy.contains key = true ∨ ∃ excursion ∈ made, excursion.id :: excursion.entry.stack = key

/-- The outcome is that the search has ended, has found what was to be found and has changed the nesting back. -/
def EndsAs (network : Network) (before : LookMemory) (search : LookSearch) (outcome : Option LookMemory) : Prop :=
  ∃ after, outcome = some after ∧ after.search = search ∧ after.nesting = before.nesting ∧ network.Logs before after

/-- From every place from which the search comes to fewer new places than `depth`, it ends, and finds what a search to
this depth finds. -/
def EndsWithin (network : Network) (stop : Option StateId) (depth : Nat) : Prop :=
  ∀ (called : List Nat) (id : StateId) (memory : LookMemory),
    (called : Multiset Nat) = memory.nesting.called.val → network.Nests memory.nesting →
    network.unseen memory.search < depth →
    network.EndsAs memory (network.lookFrom stop depth called memory.nesting.stack id memory.search)
      (network.lookInPlace stop id memory)

section Unwinding

variable {network : Network} {stop : Option StateId} {before middle after memory : LookMemory} {nesting : Nesting}
  {stack : List StateId} {rules : Finset Nat} {called : List Nat} {follow : StateId} {rule depth : Nat}

namespace Nests

theorem mem_places (nests : network.Nests nesting) {id : StateId} {state : State}
    (found : network.state? id = some state) : id :: nesting.stack ∈ network.places := by
  have few : nesting.stack.length ≤ network.callCount :=
    calc nesting.stack.length
        ≤ nesting.called.card := nests.deep
      _ ≤ network.callees.card := Finset.card_le_card nests.callees
      _ ≤ network.callCount := network.card_callees
  exact Network.mem_places found nests.follows few

theorem empty (network : Network) : network.Nests {} :=
  ⟨by simp, by simp, by simp⟩

theorem enter (nests : network.Nests nesting) (site : (rule, follow) ∈ network.callSites)
    (allowed : rule ∉ nesting.called) : network.Nests ⟨follow :: nesting.stack, insert rule nesting.called⟩ where
  follows := List.forall_mem_cons.mpr ⟨List.mem_map_of_mem site, nests.follows⟩
  callees := Finset.insert_subset (List.mem_toFinset.mpr (List.mem_map_of_mem site)) nests.callees
  deep := by
    rw [Finset.card_insert_of_notMem allowed]
    exact Nat.succ_le_succ nests.deep

theorem pop (nests : network.Nests ⟨follow :: stack, rules⟩) : network.Nests ⟨stack, rules⟩ where
  follows := (List.forall_mem_cons.mp nests.follows).2
  callees := nests.callees
  deep := (Nat.le_succ _).trans nests.deep

/-- A return takes at most one rule out of the set, and one state off the stack. -/
theorem back (nests : network.Nests ⟨follow :: stack, rules⟩) (rule : Nat) :
    network.Nests ⟨stack, rules.erase rule⟩ where
  follows := nests.pop.follows
  callees := (Finset.erase_subset rule rules).trans nests.callees
  deep := by
    have deep : stack.length + 1 ≤ rules.card := nests.deep
    have least : rules.card - 1 ≤ (rules.erase rule).card := Finset.pred_card_le_card_erase
    exact (Nat.le_sub_of_add_le deep).trans least

end Nests

namespace Logs

theorem of_same (excursions : after.excursions = before.excursions)
    (busy : ∀ key, after.search.busy.contains key = true ↔ before.search.busy.contains key = true) :
    network.Logs before after :=
  ⟨[], by simp [excursions], by simp, by simp [busy]⟩

theorem trans (first : network.Logs before middle) (second : network.Logs middle after) :
    network.Logs before after := by
  obtain ⟨made, listed, tidy, keys⟩ := first
  obtain ⟨more, moreListed, moreTidy, moreKeys⟩ := second
  refine ⟨more ++ made, by rw [moreListed, listed, List.append_assoc], fun excursion member => ?_, fun key => ?_⟩
  · exact (List.mem_append.mp member).elim (moreTidy excursion) (tidy excursion)
  · rw [moreKeys, keys]
    simp only [List.mem_append, or_and_right, exists_or, or_assoc]
    exact or_congr_right or_comm

theorem unseen_le (logs : network.Logs before after) : network.unseen after.search ≤ network.unseen before.search := by
  obtain ⟨_, _, _, keys⟩ := logs
  exact Network.unseen_le fun key known => (keys key).mpr (Or.inl known)

/-- When a call returns, the place that it was made for joins those of the calls that it made. -/
theorem record {id : StateId} (nests : network.Nests memory.nesting) (restored : after.nesting = memory.nesting)
    (logs : network.Logs (memory.look (·.enter id memory.nesting.stack)) after) :
    network.Logs memory (after.record id memory.nesting) := by
  obtain ⟨made, listed, tidy, keys⟩ := logs
  refine ⟨⟨id, memory.nesting, after.nesting⟩ :: made, ?_, List.forall_mem_cons.mpr ⟨⟨restored, nests⟩, tidy⟩,
    fun key => ?_⟩
  · simp [LookMemory.record, listed, LookMemory.look]
  · rw [List.exists_mem_cons_iff, or_left_comm, ← or_assoc]
    exact (keys key).trans (or_congr_left contains_enter)

end Logs

namespace EndsAs

theorem refl (memory : LookMemory) : network.EndsAs memory memory.search (some memory) :=
  ⟨memory, rfl, rfl, rfl, .of_same rfl fun _ => Iff.rfl⟩

theorem look {change : LookSearch → LookSearch} (busy : ∀ search, (change search).busy = search.busy) :
    network.EndsAs memory (change memory.search) (some (memory.look change)) :=
  ⟨_, rfl, rfl, rfl, .of_same rfl fun key => by rw [LookMemory.look, busy]⟩

theorem record {id : StateId} {search : LookSearch} {outcome : Option LookMemory}
    (nests : network.Nests memory.nesting)
    (ends : network.EndsAs (memory.look (·.enter id memory.nesting.stack)) search outcome) :
    network.EndsAs memory search (outcome >>= fun left => some (left.record id memory.nesting)) := by
  obtain ⟨left, rfl, found, restored, logs⟩ := ends
  exact ⟨left.record id memory.nesting, rfl, found, restored, logs.record nests restored⟩

theorem foldlM {along : LookMemory → Transition → Option LookMemory} {pass : LookSearch → Transition → LookSearch}
    (transitions : List Transition)
    (each : ∀ transition ∈ transitions, ∀ memory : LookMemory, memory.nesting = nesting →
      network.unseen memory.search < depth →
      network.EndsAs memory (pass memory.search transition) (along memory transition)) :
    ∀ memory : LookMemory, memory.nesting = nesting → network.unseen memory.search < depth →
      network.EndsAs memory (transitions.foldl pass memory.search) (transitions.foldlM along memory) := by
  induction transitions with
  | nil => exact fun memory _ _ => .refl memory
  | cons transition transitions ih =>
      intro memory same few
      rw [List.forall_mem_cons] at each
      obtain ⟨middle, ends, found, restored, logs⟩ := each.1 memory same few
      obtain ⟨after, endsLater, foundLater, restoredLater, logsLater⟩ :=
        ih each.2 middle (restored.trans same) (Nat.lt_of_le_of_lt logs.unseen_le few)
      refine ⟨after, ?_, ?_, restoredLater.trans restored, logs.trans logsLater⟩
      · rw [List.foldlM_cons, ends]
        exact endsLater
      · rw [List.foldl_cons, ← found, foundLater]

/-- A rule that may be called is taken out of the set again after the call, and its follow state off the stack. -/
theorem call {target : StateId} (site : (rule, follow) ∈ network.callSites) (allowed : rule ∉ memory.nesting.called)
    (same : (called : Multiset Nat) = memory.nesting.called.val) (nests : network.Nests memory.nesting)
    (few : network.unseen memory.search < depth) (ends : network.EndsWithin stop depth) :
    network.EndsAs memory
      (network.lookFrom stop depth (rule :: called) (follow :: memory.nesting.stack) target memory.search)
      (do
        let back ← network.lookInPlace stop target ((memory.push follow).block rule)
        some (back.allow rule).pop) := by
  have inner : ((rule :: called : List Nat) : Multiset Nat) = (insert rule memory.nesting.called).val := by
    rw [Finset.insert_val_of_notMem allowed, ← same, Multiset.cons_coe]
  obtain ⟨back, done, found, restored, logs⟩ :=
    ends (rule :: called) target ((memory.push follow).block rule) inner (nests.enter site allowed) few
  refine ⟨(back.allow rule).pop, ?_, found, ?_, logs⟩
  · rw [done]
    rfl
  · rw [LookMemory.pop, LookMemory.allow, restored]
    simp only [LookMemory.block, LookMemory.push, List.tail_cons, Finset.erase_insert allowed]

end EndsAs

theorem val_afterReturn (network : Network) (same : (called : Multiset Nat) = rules.val) (follow : StateId) :
    (network.afterReturn called follow : Multiset Nat) =
      (((network.ruleOf? follow).filter (· ∈ rules)).elim rules rules.erase).val := by
  unfold afterReturn
  cases network.ruleOf? follow with
  | none => exact same
  | some rule =>
      by_cases member : rule ∈ rules
      · simp [Option.filter, member, ← Multiset.coe_erase, same]
      · have absent : rule ∉ called := by rwa [← Multiset.mem_coe, same]
        simp [Option.filter, member, List.erase_of_not_mem absent, same]

/-- The rule that a return leads back to is put into the set again if it was there, and the follow state onto the
stack. -/
theorem EndsAs.back (stacked : memory.nesting.stack = follow :: stack)
    (same : (called : Multiset Nat) = memory.nesting.called.val) (nests : network.Nests memory.nesting)
    (few : network.unseen memory.search < depth) (ends : network.EndsWithin stop depth) :
    network.EndsAs memory (network.lookFrom stop depth (network.afterReturn called follow) stack follow memory.search)
      (do
        let returning := (network.ruleOf? follow).filter (· ∈ memory.nesting.called)
        let back ← network.lookInPlace stop follow (returning.elim memory.pop memory.pop.allow)
        some ((returning.elim back back.block).push follow)) := by
  obtain ⟨search, ⟨_, rules⟩, excursions⟩ := memory
  obtain rfl := stacked
  have remaining := network.val_afterReturn same follow
  dsimp only at remaining nests few ⊢
  cases returning : (network.ruleOf? follow).filter (· ∈ rules) with
  | none =>
      rw [returning] at remaining
      obtain ⟨back, done, found, restored, logs⟩ :=
        ends _ follow ⟨search, ⟨stack, rules⟩, excursions⟩ remaining nests.pop few
      refine ⟨back.push follow, ?_, found, ?_, logs⟩
      · simp only [Option.elim_none, LookMemory.pop, List.tail_cons, done]
        rfl
      · rw [LookMemory.push, restored]
  | some rule =>
      rw [returning] at remaining
      obtain ⟨back, done, found, restored, logs⟩ :=
        ends _ follow ⟨search, ⟨stack, rules.erase rule⟩, excursions⟩ remaining (nests.back rule) few
      refine ⟨(back.block rule).push follow, ?_, found, ?_, logs⟩
      · simp only [Option.elim_some, LookMemory.pop, LookMemory.allow, List.tail_cons, done]
        rfl
      · have member : rule ∈ rules := of_decide_eq_true (Option.filter_eq_some_iff.mp returning).2
        rw [LookMemory.push, LookMemory.block, restored]
        simp only [Finset.insert_erase member]

theorem endsWithin (network : Network) (stop : Option StateId) (depth : Nat) : network.EndsWithin stop depth := by
  induction depth with
  | zero => exact fun _ _ _ _ _ few => absurd few (Nat.not_lt_zero _)
  | succ depth ih =>
      intro called id memory same nests few
      rw [lookInPlace]
      refine EndsAs.record nests ?_
      simp only [lookFrom]
      split
      · rename_i known
        refine ⟨memory, rfl, rfl, rfl, .of_same rfl fun key => ?_⟩
        rw [LookMemory.look, contains_enter]
        exact ⟨Or.inr, fun either => either.elim (fun here => here ▸ known) fun old => old⟩
      · rename_i fresh
        cases found : network.state? id with
        | none => exact .refl _
        | some state =>
            -- The place is new and one of finitely many, so one fewer is left to come to.
            have fewer : network.unseen (memory.search.enter id memory.nesting.stack) < depth :=
              Nat.lt_of_lt_of_le (unseen_enter (nests.mem_places found) (Bool.eq_false_iff.mpr fresh))
                (Nat.le_of_lt_succ few)
            simp only
            split
            · exact .look fun _ => rfl
            · split
              · cases stacked : memory.nesting.stack with
                | nil => exact .look fun _ => rfl
                | cons follow stack => exact .back stacked same nests (stacked ▸ fewer) ih
              · refine EndsAs.foldlM state.transitions (fun transition leaves current unchanged few => ?_) _ rfl fewer
                have unchanged : current.nesting = memory.nesting := unchanged
                rw [← unchanged] at same nests ⊢
                have there (rule : Nat) : rule ∈ called ↔ rule ∈ current.nesting.called := by
                  rw [← Multiset.mem_coe, same, Finset.mem_val]
                cases labelled : transition.label with
                | call rule level follow =>
                    simp only [there]
                    split
                    · exact .refl current
                    · rename_i allowed
                      exact .call (mem_callSites found leaves labelled) allowed same nests few ih
                | epsilon | action | predicate | precedence =>
                    exact ih called transition.target current same nests few
                | wildcard | notSet | atom | range | set => exact .look fun _ => rfl

end Unwinding

/-- In every network, from every state, the lookahead comes to an end, and it finds what a search to a bounded depth finds,
however large the bound is beyond the one that is used. A call was made for each place that was looked at, and each
call left the stack and the blocked rules as it found them; there were at most as many follow states as blocked rules,
and at most as many of these as there are rules that transitions call. -/
theorem look_ends (network : Network) (start : StateId) (stop : Option StateId) :
    ∃ after, network.lookInPlace stop start {} = some after ∧
      (∀ depth, network.lookDepth ≤ depth → network.lookFrom stop depth [] [] start {} = after.search) ∧
      network.look start stop = after.search.look ∧
      (∀ key, after.search.busy.contains key = true ↔
        ∃ excursion ∈ after.excursions, excursion.id :: excursion.entry.stack = key) ∧
      ∀ excursion ∈ after.excursions, excursion.exit = excursion.entry ∧
        excursion.entry.stack.length ≤ excursion.entry.called.card ∧
        excursion.entry.called.card ≤ network.callees.card := by
  have ends (depth : Nat) (deep : network.lookDepth ≤ depth) :
      network.EndsAs {} (network.lookFrom stop depth [] [] start {}) (network.lookInPlace stop start {}) := by
    have few : network.unseen {} < depth :=
      Nat.lt_of_lt_of_le (Nat.lt_of_le_of_lt (Finset.card_filter_le _ _) network.card_places) deep
    exact network.endsWithin stop depth [] start {} rfl (.empty network) few
  obtain ⟨after, done, found, _, made, listed, tidy, keys⟩ := ends network.lookDepth (Nat.le_refl _)
  have same : after.excursions = made := by simpa using listed
  refine ⟨after, done, fun depth deep => ?_, by rw [found, look], fun key => ?_, fun excursion member => ?_⟩
  · obtain ⟨other, again, found, _⟩ := ends depth deep
    rw [done, Option.some.injEq] at again
    exact again ▸ found.symm
  · rw [keys, same]
    simp
  · have tidy := tidy excursion (same ▸ member)
    exact ⟨tidy.exit, tidy.nests.deep, Finset.card_le_card tidy.nests.callees⟩

end Network

end GrammarNetwork
