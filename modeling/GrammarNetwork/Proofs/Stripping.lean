import GrammarNetwork.Proofs.Trail

/-! What taking out tails does to a network. In a network where a basic state is entered from one state
only, the walk strips exactly the tails behind the states that it can reach, as if all of them were taken
out at once: the order of the visits does not matter. -/

namespace GrammarNetwork

theorem Label.not_isCall_of_passes {label : Label} (passes : label.passes = true) :
    label.isCall = false := by
  cases label <;> simp_all [Label.passes, Label.isCall]

theorem Transition.next_of_not_call {transition : Transition} (silent : transition.label.isCall = false) :
    transition.next = transition.target := by
  unfold Transition.next
  cases label : transition.label <;> simp_all [Label.isCall]

theorem Transition.target_redirect {transition : Transition} (silent : transition.label.isCall = false)
    (exit : StateId) : (transition.redirect exit).target = exit := by
  unfold Transition.redirect
  cases label : transition.label <;> simp_all [Label.isCall]

theorem Transition.redirect_target (transition : Transition) (exit : StateId) :
    (transition.redirect exit).target = transition.target ∨
      (transition.redirect exit).target = exit ∧ transition.label.isCall = false := by
  unfold Transition.redirect
  cases label : transition.label <;> simp [Label.isCall]

namespace Network

theorem onlyTransition?_eq_some {network : Network} {id : StateId} {transition : Transition} :
    network.onlyTransition? id = some transition ↔
      ∃ state, network.state? id = some state ∧ state.kind = .basic ∧ state.transitions = [transition] := by
  unfold onlyTransition?
  cases network.state? id with
  | none => simp
  | some state =>
      simp only [Option.some.injEq, exists_eq_left']
      split <;> simp_all

/-- The state behind `id` that is taken out, and the end of the block that it leads to. -/
def tail? (network : Network) (id : StateId) : Option (StateId × StateId) :=
  match network.onlyTransition? id with
  | none => none
  | some transition =>
      match network.onlyTransition? transition.next with
      | none => none
      | some tail =>
          if tail.label.passes && network.endsOtherBlock tail.target then
            some (transition.next, tail.target)
          else
            none

theorem tail?_eq_some {network : Network} {id behind exit : StateId} :
    network.tail? id = some (behind, exit) ↔
      ∃ transition tail, network.onlyTransition? id = some transition ∧ transition.next = behind ∧
        network.onlyTransition? behind = some tail ∧ tail.label.passes = true ∧ tail.target = exit ∧
        network.endsOtherBlock exit = true := by
  unfold tail?
  cases network.onlyTransition? id with
  | none => simp
  | some transition =>
      simp only [Option.some.injEq, exists_and_left, exists_eq_left']
      cases found : network.onlyTransition? transition.next with
      | none =>
          simp only [reduceCtorEq, false_iff, not_exists, not_and]
          rintro rfl tail impossible
          simp [found] at impossible
      | some tail =>
          by_cases fits : tail.label.passes = true ∧ network.endsOtherBlock tail.target = true
          · simp only [fits.1, fits.2, Bool.and_self, ↓reduceIte, Option.some.injEq, Prod.mk.injEq]
            constructor
            · rintro ⟨rfl, rfl⟩
              exact ⟨rfl, tail, found, fits.1, rfl, fits.2⟩
            · rintro ⟨rfl, other, same, _, rfl, _⟩
              rw [found] at same
              cases same
              exact ⟨rfl, rfl⟩
          · simp only [← Bool.and_eq_true] at fits
            simp only [fits, Bool.false_eq_true, ↓reduceIte, reduceCtorEq, false_iff, not_exists, not_and]
            rintro rfl other same passes rfl ends
            rw [found] at same
            cases same
            simp [passes, ends] at fits

/-- Some transition of `source` goes to `id`, at once or after a call. -/
def LeadsTo (network : Network) (source id : StateId) : Prop :=
  ∃ state transition, network.state? source = some state ∧ transition ∈ state.transitions ∧
    (transition.target = id ∨ transition.next = id)

/-- The states that a walk along the targets of transitions reaches without leaving the rule. -/
inductive Reaches (network : Network) (rule : Option Nat) (start : StateId) : StateId → Prop
  | start : network.isInRule rule start = true → Reaches network rule start start
  | next {id state transition} : Reaches network rule start id → network.state? id = some state →
      transition ∈ state.transitions → network.isInRule rule transition.target = true →
      Reaches network rule start transition.target

/-- Of the states that the walk reaches, a basic state behind a basic state is entered only from there,
belongs to the rule and is not where the walk starts. Calls lead neither to such states nor to the ends of
blocks. -/
structure Tame (network : Network) (rule : Option Nat) (start : StateId) : Prop where
  calls : ∀ id transition, network.Reaches rule start id → network.onlyTransition? id = some transition →
    transition.label.isCall = true → network.onlyTransition? transition.target = none
  callsBehind : ∀ id transition tail, network.Reaches rule start id →
    network.onlyTransition? id = some transition →
    network.onlyTransition? transition.next = some tail → tail.label.isCall = true →
    network.endsOtherBlock tail.target = false
  apart : ∀ id transition, network.Reaches rule start id → network.onlyTransition? id = some transition →
    (network.onlyTransition? transition.next).isSome → transition.next ≠ start
  sameRule : ∀ id transition, network.Reaches rule start id →
    network.onlyTransition? id = some transition →
    (network.onlyTransition? transition.next).isSome → network.isInRule rule transition.next = true
  lone : ∀ id transition source, network.Reaches rule start id →
    network.onlyTransition? id = some transition →
    (network.onlyTransition? transition.next).isSome → network.Reaches rule start source →
    network.LeadsTo source transition.next → source = id

/-- The network `after` is `before` with the tails behind the states in `visited` taken out. -/
structure Stripped (before after : Network) (visited : StateId → Prop) : Prop where
  removed : ∀ id behind exit, visited id → before.tail? id = some (behind, exit) →
    after.state? behind = none
  redirected : ∀ id behind exit state, visited id → before.tail? id = some (behind, exit) →
    before.state? id = some state →
    after.state? id = some { state with transitions := state.transitions.map (·.redirect exit) }
  kept : ∀ id, (∀ source exit, visited source → before.tail? source ≠ some (id, exit)) →
    (visited id → before.tail? id = none) → after.state? id = before.state? id
  others : after = { before with states := after.states }
  size : after.nextId = before.nextId

section Tame

variable {before after : Network} {rule : Option Nat} {start : StateId} {visited : StateId → Prop}

theorem endsOtherBlock_kind {network : Network} {id : StateId} (ends : network.endsOtherBlock id = true) :
    ∃ state opening, network.state? id = some state ∧ state.kind = .blockEnd opening := by
  unfold endsOtherBlock at ends
  cases found : network.state? id with
  | none => simp [found] at ends
  | some state =>
      simp only [found] at ends
      split at ends
      · exact ⟨state, _, rfl, by assumption⟩
      · cases ends

theorem onlyTransition?_of_endsOtherBlock {network : Network} {id : StateId}
    (ends : network.endsOtherBlock id = true) : network.onlyTransition? id = none := by
  obtain ⟨state, opening, found, kind⟩ := endsOtherBlock_kind ends
  simp [onlyTransition?, found, kind]

/-- A state that is taken out has no tail of its own. -/
theorem tail?_of_removed {network : Network} {id behind exit : StateId}
    (tail : network.tail? id = some (behind, exit)) : network.tail? behind = none := by
  obtain ⟨_, last, _, _, atBehind, passes, rfl, ends⟩ := tail?_eq_some.mp tail
  have next : last.next = last.target := Transition.next_of_not_call (Label.not_isCall_of_passes passes)
  simp [tail?, atBehind, next, onlyTransition?_of_endsOtherBlock ends]

theorem Stripped.kind_of_after (stripped : Stripped before after visited) {id : StateId} {state : State}
    (found : after.state? id = some state) :
    ∃ old, before.state? id = some old ∧ state.kind = old.kind ∧ state.rule = old.rule := by
  by_cases gone : ∃ source exit, visited source ∧ before.tail? source = some (id, exit)
  · obtain ⟨source, exit, seen, tail⟩ := gone
    rw [stripped.removed source id exit seen tail] at found
    cases found
  · by_cases changed : visited id ∧ ∃ behind exit, before.tail? id = some (behind, exit)
    · obtain ⟨seen, behind, exit, tail⟩ := changed
      obtain ⟨transition, _, only, _⟩ := tail?_eq_some.mp tail
      obtain ⟨old, atId, _⟩ := onlyTransition?_eq_some.mp only
      rw [stripped.redirected id behind exit old seen tail atId] at found
      cases found
      exact ⟨old, atId, rfl, rfl⟩
    · have same := stripped.kept id (fun source exit seen tail => gone ⟨source, exit, seen, tail⟩)
        (fun seen => by
          cases tail : before.tail? id with
          | none => rfl
          | some pair => exact absurd ⟨seen, pair.1, pair.2, tail⟩ changed)
      exact ⟨state, same ▸ found, rfl, rfl⟩

theorem Stripped.kind_of_before (stripped : Stripped before after visited) {id : StateId} {state : State}
    (found : before.state? id = some state) (special : state.kind ≠ .basic) :
    after.state? id = some state := by
  have notOnly : before.onlyTransition? id = none := by
    cases only : before.onlyTransition? id with
    | none => rfl
    | some transition =>
        obtain ⟨other, atId, basic, _⟩ := onlyTransition?_eq_some.mp only
        rw [found] at atId
        cases atId
        exact absurd basic special
  rw [stripped.kept id, found]
  · intro source exit _ tail
    obtain ⟨_, _, _, _, atId, _⟩ := tail?_eq_some.mp tail
    rw [notOnly] at atId
    cases atId
  · intro _
    simp [tail?, notOnly]

/-- A test of the kind of a state that basic states fail has the same answer before and after. -/
theorem Stripped.test_eq (stripped : Stripped before after visited) (test : StateKind → Bool)
    (fails : test .basic = false) (id : StateId) :
    (after.state? id).any (fun state => test state.kind) =
      (before.state? id).any fun state => test state.kind := by
  cases found : before.state? id with
  | none =>
      cases other : after.state? id with
      | none => rfl
      | some state =>
          obtain ⟨old, atId, _⟩ := stripped.kind_of_after other
          rw [found] at atId
          cases atId
  | some state =>
      by_cases special : state.kind = .basic
      · cases other : after.state? id with
        | none => simp [special, fails]
        | some new =>
            obtain ⟨old, atId, kind, _⟩ := stripped.kind_of_after other
            rw [found] at atId
            cases atId
            simp [kind]
      · rw [stripped.kind_of_before found special]

def startsStar : StateKind → Bool
  | .blockStart .star _ _ => true
  | _ => false

def endsBlock (isStar : StateId → Bool) : StateKind → Bool
  | .blockEnd start => !(start.any isStar)
  | _ => false

theorem isStarBlockStart_eq_any (network : Network) (id : StateId) :
    network.isStarBlockStart id = (network.state? id).any fun state => startsStar state.kind := by
  unfold isStarBlockStart startsStar
  cases network.state? id <;> rfl

theorem endsOtherBlock_eq_any (network : Network) (id : StateId) :
    network.endsOtherBlock id =
      (network.state? id).any fun state => endsBlock network.isStarBlockStart state.kind := by
  unfold endsOtherBlock endsBlock
  cases network.state? id <;> rfl

theorem Stripped.isStarBlockStart_eq (stripped : Stripped before after visited) (id : StateId) :
    after.isStarBlockStart id = before.isStarBlockStart id := by
  rw [isStarBlockStart_eq_any, isStarBlockStart_eq_any]
  exact stripped.test_eq startsStar rfl id

theorem Stripped.endsOtherBlock_eq (stripped : Stripped before after visited) (id : StateId) :
    after.endsOtherBlock id = before.endsOtherBlock id := by
  have starts : after.isStarBlockStart = before.isStarBlockStart := funext stripped.isStarBlockStart_eq
  rw [endsOtherBlock_eq_any, endsOtherBlock_eq_any, starts]
  exact stripped.test_eq (endsBlock before.isStarBlockStart) rfl id

theorem Stripped.isInRule_of_after (stripped : Stripped before after visited) {rule : Option Nat}
    {id : StateId} (inside : after.isInRule rule id = true) : before.isInRule rule id = true := by
  unfold isInRule at inside ⊢
  cases found : after.state? id with
  | none => simp [found] at inside
  | some state =>
      obtain ⟨old, atId, _, sameRule⟩ := stripped.kind_of_after found
      simpa [found, atId, sameRule] using inside

theorem isLive_of_isInRule {network : Network} {rule : Option Nat} {id : StateId}
    (inside : network.isInRule rule id = true) : ∃ state, network.state? id = some state := by
  unfold isInRule at inside
  cases found : network.state? id with
  | none => simp [found] at inside
  | some state => exact ⟨state, rfl⟩

/-- Where a state on the way of the walk comes from. -/
def Known (network : Network) (start : StateId) (visited : StateId → Prop) (id : StateId) : Prop :=
  id = start ∨
    (∃ source state transition, visited source ∧ network.state? source = some state ∧
      transition ∈ state.transitions ∧ transition.target = id) ∨
    ∃ source behind transition, visited source ∧ network.onlyTransition? source = some transition ∧
      transition.label.isCall = false ∧ network.tail? source = some (behind, id)

/-- How far the walk has come: `visited` is what it has done, `remaining` what it has not, and the states on
the stack are next. -/
structure Progress (before : Network) (rule : Option Nat) (start : StateId) (visited : StateId → Prop)
    (current : Network) (remaining : StateSet) (stack : List StateId) : Prop where
  stripped : Stripped before current visited
  reached : ∀ id, visited id → before.Reaches rule start id
  remaining_iff : ∀ id, remaining.contains id = true ↔ before.isLive id = true ∧ ¬visited id
  known : ∀ id, id ∈ stack ∨ visited id → before.Known start visited id
  closed : ∀ id state transition, visited id → current.state? id = some state →
    transition ∈ state.transitions →
    visited transition.target ∨ transition.target ∈ stack ∨
      current.isInRule rule transition.target = false
  started : visited start ∨ start ∈ stack ∨ current.isInRule rule start = false

theorem Known.mono {network : Network} {more : StateId → Prop} {id : StateId}
    (known : network.Known start visited id) (larger : ∀ id, visited id → more id) :
    network.Known start more id := by
  rcases known with same | ⟨source, state, transition, seen, found⟩ | ⟨source, behind, transition, seen, tail⟩
  · exact Or.inl same
  · exact Or.inr (Or.inl ⟨source, state, transition, larger source seen, found⟩)
  · exact Or.inr (Or.inr ⟨source, behind, transition, larger source seen, tail⟩)

/-- A basic state is not on the way of the walk before the basic state in front of it is visited. -/
theorem Known.predecessor (tame : before.Tame rule start)
    (reached : ∀ source, visited source → before.Reaches rule start source) {id : StateId}
    {transition : Transition} (reaches : before.Reaches rule start id)
    (only : before.onlyTransition? id = some transition)
    (basic : (before.onlyTransition? transition.next).isSome = true)
    (known : before.Known start visited transition.next) : visited id := by
  rcases known with same | ⟨source, state, other, seen, found, member, target⟩ |
    ⟨source, behind, _, _, _, _, tail⟩
  · exact absurd same (tame.apart id transition reaches only basic)
  · have leads : before.LeadsTo source transition.next := ⟨state, other, found, member, Or.inl target⟩
    exact tame.lone id transition source reaches only basic (reached source seen) leads ▸ seen
  · obtain ⟨_, _, _, _, _, _, _, ends⟩ := tail?_eq_some.mp tail
    rw [onlyTransition?_of_endsOtherBlock ends] at basic
    cases basic

theorem Known.reaches (tame : before.Tame rule start) {id : StateId}
    (known : before.Known start visited id) (inside : before.isInRule rule id = true)
    (reached : ∀ source, visited source → before.Reaches rule start source) :
    before.Reaches rule start id := by
  rcases known with rfl | ⟨source, state, transition, seen, found, member, rfl⟩ |
    ⟨source, behind, transition, seen, only, silent, tail⟩
  · exact .start inside
  · exact .next (reached source seen) found member inside
  · obtain ⟨other, last, again, rfl, onlyBehind, _, rfl, _⟩ := tail?_eq_some.mp tail
    rw [only] at again
    cases again
    obtain ⟨state, found, _, single⟩ := onlyTransition?_eq_some.mp only
    obtain ⟨behindState, foundBehind, _, singleBehind⟩ := onlyTransition?_eq_some.mp onlyBehind
    have atSource := reached source seen
    have behindInside := tame.sameRule source transition atSource only (by simp [onlyBehind])
    rw [Transition.next_of_not_call silent] at behindInside foundBehind
    have atBehind : before.Reaches rule start transition.target :=
      .next atSource found (by simp [single]) behindInside
    exact .next atBehind foundBehind (by simp [singleBehind]) inside

theorem Stripped.state?_of_not_visited (stripped : Stripped before after visited) {id : StateId}
    {state : State} (found : after.state? id = some state) (fresh : ¬visited id) :
    before.state? id = some state := by
  rw [← found]
  refine (stripped.kept id ?_ fun seen => absurd seen fresh).symm
  intro source exit seen tail
  rw [stripped.removed source id exit seen tail] at found
  cases found

section Visit

variable {remaining : StateSet} {stack : List StateId} {id : StateId} {state : State}

theorem Progress.onlyTransition?_eq
    (progress : Progress before rule start visited after remaining stack)
    (found : after.state? id = some state) (fresh : ¬visited id) :
    after.onlyTransition? id = before.onlyTransition? id := by
  have atId := progress.stripped.state?_of_not_visited found fresh
  simp [onlyTransition?, found, atId]

/-- The state behind one that is not yet visited is as it was at first. -/
theorem Progress.onlyTransition?_next_eq (tame : before.Tame rule start)
    (progress : Progress before rule start visited after remaining stack)
    (reaches : before.Reaches rule start id) (fresh : ¬visited id)
    {transition : Transition} (only : before.onlyTransition? id = some transition) :
    after.onlyTransition? transition.next = before.onlyTransition? transition.next := by
  have stripped := progress.stripped
  cases there : before.onlyTransition? transition.next with
  | none =>
      by_contra present
      obtain ⟨tail, isTail⟩ := Option.ne_none_iff_exists'.mp present
      obtain ⟨new, atNew, basic, single⟩ := onlyTransition?_eq_some.mp isTail
      have noTail : before.tail? transition.next = none := by simp [tail?, there]
      have same : after.state? transition.next = before.state? transition.next := by
        refine stripped.kept _ ?_ fun _ => noTail
        intro source exit seen tailOf
        rw [stripped.removed _ _ _ seen tailOf] at atNew
        cases atNew
      have impossible := onlyTransition?_eq_some.mpr ⟨new, same ▸ atNew, basic, single⟩
      rw [there] at impossible
      cases impossible
  | some tail =>
      have basic : (before.onlyTransition? transition.next).isSome = true := by simp [there]
      have same : after.state? transition.next = before.state? transition.next := by
        refine stripped.kept _ ?_ ?_
        · intro source exit seen tailOf
          obtain ⟨other, _, onlySource, nextSource, _⟩ := tail?_eq_some.mp tailOf
          obtain ⟨sourceState, atSource, _, transitions⟩ := onlyTransition?_eq_some.mp onlySource
          have leads : before.LeadsTo source transition.next :=
            ⟨sourceState, other, atSource, by simp [transitions], Or.inr nextSource⟩
          exact fresh (tame.lone id transition source reaches only basic (progress.reached source seen)
            leads ▸ seen)
        · intro seen
          exact absurd ((progress.known _ (Or.inr seen)).predecessor tame progress.reached reaches only
            basic) fresh
      rw [← there]
      simp [onlyTransition?, same]

/-- A visit takes out the tail that the state had at first. -/
theorem Progress.stripTail_eq (tame : before.Tame rule start)
    (progress : Progress before rule start visited after remaining stack)
    (reaches : before.Reaches rule start id) (found : after.state? id = some state) (fresh : ¬visited id) :
    after.stripTail id =
      match before.tail? id with
      | none => after
      | some (behind, exit) => (after.redirectFirst id exit).removeState behind := by
  unfold stripTail tail?
  rw [progress.onlyTransition?_eq found fresh]
  cases only : before.onlyTransition? id with
  | none => rfl
  | some transition =>
      simp only [progress.onlyTransition?_next_eq tame reaches fresh only, progress.stripped.endsOtherBlock_eq]
      cases there : before.onlyTransition? transition.next with
      | none => rfl
      | some tail =>
          have calls := tame.callsBehind id transition tail reaches only there
          cases label : tail.label <;> simp_all [Label.passes, Label.isEpsilon, Label.isCall]
          all_goals split <;> simp_all

theorem Progress.state?_stripTail (tame : before.Tame rule start)
    (progress : Progress before rule start visited after remaining stack)
    (reaches : before.Reaches rule start id) (found : after.state? id = some state) (fresh : ¬visited id)
    {behind exit : StateId}
    (tail : before.tail? id = some (behind, exit)) (other : StateId) :
    (after.stripTail id).state? other =
      if other = behind then none
      else if other = id then
        some { state with transitions := state.transitions.map (·.redirect exit) }
      else after.state? other := by
  rw [progress.stripTail_eq tame reaches found fresh, tail]
  simp only [state?_removeState, redirectFirst, state?_modifyState]
  by_cases atBehind : other = behind
  · simp [atBehind]
  · simp only [atBehind, ↓reduceIte]
    by_cases atId : other = id
    · subst atId
      obtain ⟨transition, _, only, _⟩ := tail?_eq_some.mp tail
      obtain ⟨old, atOther, _, single⟩ := onlyTransition?_eq_some.mp only
      rw [progress.stripped.state?_of_not_visited found fresh] at atOther
      cases atOther
      simp [State.redirectFirst, found, single]
    · simp [atId]

/-- A visit takes out other states or leaves them as they are. -/
theorem Progress.state?_of_stripTail (tame : before.Tame rule start)
    (progress : Progress before rule start visited after remaining stack)
    (reaches : before.Reaches rule start id) (found : after.state? id = some state) (fresh : ¬visited id)
    {other : StateId} {new : State} (different : other ≠ id)
    (there : (after.stripTail id).state? other = some new) : after.state? other = some new := by
  cases tail : before.tail? id with
  | none => rwa [progress.stripTail_eq tame reaches found fresh, tail] at there
  | some pair =>
      rw [progress.state?_stripTail tame reaches found fresh tail other] at there
      by_cases atBehind : other = pair.1
      · simp [atBehind] at there
      · simpa [atBehind, different] using there

/-- A visit strips the tail of the state that is visited. -/
theorem Progress.stripped_visit (tame : before.Tame rule start)
    (progress : Progress before rule start visited after remaining stack)
    (reaches : before.Reaches rule start id) (found : after.state? id = some state) (fresh : ¬visited id) :
    Stripped before (after.stripTail id) fun other => visited other ∨ other = id := by
  have stripped := progress.stripped
  have atId := stripped.state?_of_not_visited found fresh
  cases tail : before.tail? id with
  | none =>
      -- Nothing is stripped, and no tail of the old network begins at the state.
      have same : after.stripTail id = after := by rw [progress.stripTail_eq tame reaches found fresh, tail]
      rw [same]
      refine ⟨?_, ?_, ?_, stripped.others, stripped.size⟩
      · rintro source behind exit (seen | rfl) tailOf
        · exact stripped.removed source behind exit seen tailOf
        · rw [tail] at tailOf
          cases tailOf
      · rintro source behind exit old (seen | rfl) tailOf atSource
        · exact stripped.redirected source behind exit old seen tailOf atSource
        · rw [tail] at tailOf
          cases tailOf
      · intro other keeps unchanged
        exact stripped.kept other (fun source exit seen => keeps source exit (Or.inl seen))
          fun seen => unchanged (Or.inl seen)
  | some pair =>
      obtain ⟨behind, exit⟩ := pair
      -- The state behind is taken out and the state itself is redirected. A state behind has no tail of its own, so
      -- it is neither the state itself nor one that was redirected before.
      have after? := progress.state?_stripTail tame reaches found fresh tail
      have idKept : id ≠ behind := by
        rintro rfl
        rw [tail?_of_removed tail] at tail
        cases tail
      refine ⟨?_, ?_, ?_, ?_, ?_⟩
      · rintro source other way (seen | rfl) tailOf
        · rw [after?]
          have gone := stripped.removed source other way seen tailOf
          split
          · rfl
          · split
            · rename_i same
              rw [same, found] at gone
              cases gone
            · exact gone
        · rw [tail] at tailOf
          cases tailOf
          simp [after?]
      · rintro source other way old (seen | rfl) tailOf atSource
        · have sourceKept : source ≠ behind := by
            rintro rfl
            rw [tail?_of_removed tail] at tailOf
            cases tailOf
          have sourceOld : source ≠ id := fun same => fresh (same ▸ seen)
          rw [after?]
          simp [sourceKept, sourceOld, stripped.redirected source other way old seen tailOf atSource]
        · rw [tail] at tailOf
          cases tailOf
          rw [atId] at atSource
          cases atSource
          simp [after?, idKept]
      · intro other keeps unchanged
        have otherKept : other ≠ behind := fun same => keeps id exit (Or.inr rfl) (same ▸ tail)
        have otherOld : other ≠ id := by
          rintro rfl
          rw [unchanged (Or.inr rfl)] at tail
          cases tail
        rw [after?]
        simp only [otherKept, otherOld, ↓reduceIte]
        exact stripped.kept other (fun source way seen => keeps source way (Or.inl seen))
          fun seen => unchanged (Or.inl seen)
      · rw [progress.stripTail_eq tame reaches found fresh, tail]
        simp only [redirectFirst, removeState, modifyState]
        rw [stripped.others]
      · rw [progress.stripTail_eq tame reaches found fresh, tail]
        simp [redirectFirst, stripped.size]

end Visit

section Walk

variable {remaining : StateSet} {stack : List StateId}

theorem nextUnvisited_eq_none {network : Network}
    (found : network.nextUnvisited rule remaining stack = none) :
    ∀ id ∈ stack, ¬(remaining.contains id = true ∧ network.isInRule rule id = true) := by
  induction stack with
  | nil => simp
  | cons first stack ih =>
      simp only [nextUnvisited] at found
      split at found
      · cases found
      · rename_i skipped
        intro id member
        rcases List.mem_cons.mp member with rfl | later
        · simpa using skipped
        · exact ih found id later

theorem nextUnvisited_eq_some {network : Network} {id : StateId} {rest : List StateId}
    (found : network.nextUnvisited rule remaining stack = some (id, rest)) :
    remaining.contains id = true ∧ network.isInRule rule id = true ∧
      ∃ skipped, stack = skipped ++ id :: rest ∧
        ∀ other ∈ skipped, ¬(remaining.contains other = true ∧ network.isInRule rule other = true) := by
  induction stack with
  | nil => simp [nextUnvisited] at found
  | cons first stack ih =>
      simp only [nextUnvisited] at found
      split at found
      · rename_i fresh
        cases found
        exact ⟨(Bool.and_eq_true_iff.mp fresh).1, (Bool.and_eq_true_iff.mp fresh).2, [], rfl, by simp⟩
      · rename_i skip
        obtain ⟨fresh, inside, skipped, split, passed⟩ := ih found
        refine ⟨fresh, inside, first :: skipped, by rw [split]; rfl, ?_⟩
        intro other member
        rcases List.mem_cons.mp member with rfl | later
        · simpa using skip
        · exact passed other later

/-- A state that the walk passes over is visited already or outside the rule. -/
theorem Progress.passed (progress : Progress before rule start visited after remaining stack)
    {id : StateId} (skip : ¬(remaining.contains id = true ∧ after.isInRule rule id = true)) :
    visited id ∨ after.isInRule rule id = false := by
  by_cases inside : after.isInRule rule id = true
  · have gone : ¬remaining.contains id = true := fun there => skip ⟨there, inside⟩
    rw [progress.remaining_iff] at gone
    obtain ⟨state, live⟩ := isLive_of_isInRule (progress.stripped.isInRule_of_after inside)
    by_contra neither
    exact gone ⟨(isLive_iff before).mpr ⟨state, live⟩, fun seen => neither (Or.inl seen)⟩
  · exact Or.inr (Bool.eq_false_iff.mpr inside)

/-- The states that a visit puts on the stack. -/
def targets (network : Network) (id : StateId) : List StateId :=
  ((network.state? id).map fun state => state.transitions.map Transition.target).getD []

theorem Progress.known_target (tame : before.Tame rule start)
    (progress : Progress before rule start visited after remaining stack) {id : StateId} {state : State}
    (reaches : before.Reaches rule start id) (found : after.state? id = some state) (fresh : ¬visited id)
    {target : StateId}
    (member : target ∈ (after.stripTail id).targets id) :
    before.Known start (fun other => visited other ∨ other = id) target := by
  have atId := progress.stripped.state?_of_not_visited found fresh
  cases tail : before.tail? id with
  | none =>
      rw [progress.stripTail_eq tame reaches found fresh, tail] at member
      simp only [targets, found, Option.map_some, Option.getD_some, List.mem_map] at member
      obtain ⟨transition, inState, rfl⟩ := member
      exact Or.inr (Or.inl ⟨id, state, transition, Or.inr rfl, atId, inState, rfl⟩)
  | some pair =>
      obtain ⟨behind, exit⟩ := pair
      have idKept : id ≠ behind := by
        rintro rfl
        rw [tail?_of_removed tail] at tail
        cases tail
      have newState := progress.state?_stripTail tame reaches found fresh tail id
      simp only [idKept, ↓reduceIte] at newState
      simp only [targets, newState, Option.map_some, Option.getD_some, List.map_map, List.mem_map,
        Function.comp_apply] at member
      obtain ⟨transition, inState, rfl⟩ := member
      obtain ⟨first, _, only, _⟩ := tail?_eq_some.mp tail
      obtain ⟨old, atOld, _, single⟩ := onlyTransition?_eq_some.mp only
      rw [atId] at atOld
      cases atOld
      rw [single, List.mem_singleton] at inState
      subst inState
      rcases transition.redirect_target exit with same | ⟨toExit, silent⟩
      · exact Or.inr (Or.inl ⟨id, state, transition, Or.inr rfl, atId, by simp [single], same.symm⟩)
      · rw [toExit]
        exact Or.inr (Or.inr ⟨id, behind, transition, Or.inr rfl, only, silent, tail⟩)

theorem Progress.visit (tame : before.Tame rule start)
    (progress : Progress before rule start visited after remaining stack) {id : StateId}
    {rest : List StateId} (next : after.nextUnvisited rule remaining stack = some (id, rest)) :
    Progress before rule start (fun other => visited other ∨ other = id) (after.stripTail id)
      (remaining.erase id) ((after.stripTail id).targets id ++ rest) := by
  obtain ⟨contained, inside, skipped, stackEq, passed⟩ := nextUnvisited_eq_some next
  obtain ⟨state, found⟩ := isLive_of_isInRule inside
  have fresh : ¬visited id := ((progress.remaining_iff id).mp contained).2
  have onStack : id ∈ stack := by simp [stackEq]
  have reaches : before.Reaches rule start id :=
    (progress.known id (Or.inl onStack)).reaches tame (progress.stripped.isInRule_of_after inside)
      progress.reached
  have stripped := progress.stripped_visit tame reaches found fresh
  have monotone : ∀ other, visited other → visited other ∨ other = id := fun _ => Or.inl
  have unchanged : ∀ other new, other ≠ id → (after.stripTail id).state? other = some new →
      after.state? other = some new := fun _ _ => progress.state?_of_stripTail tame reaches found fresh
  have stays : ∀ other, after.isInRule rule other = false →
      (after.stripTail id).isInRule rule other = false := by
    intro other outside
    by_cases same : other = id
    · rw [same, inside] at outside
      cases outside
    · unfold isInRule at outside ⊢
      cases there : (after.stripTail id).state? other with
      | none => rfl
      | some new => simpa [unchanged other new same there] using outside
  -- What was accounted for still is: the top of the stack is visited now, and all above it was to be passed over.
  have arrives : ∀ other, visited other ∨ other ∈ stack ∨ after.isInRule rule other = false →
      (visited other ∨ other = id) ∨ other ∈ (after.stripTail id).targets id ++ rest ∨
        (after.stripTail id).isInRule rule other = false := by
    rintro other (done | waiting | outside)
    · exact Or.inl (Or.inl done)
    · rw [stackEq, List.mem_append, List.mem_cons] at waiting
      rcases waiting with above | atTop | below
      · rcases progress.passed (passed _ above) with done | outside
        · exact Or.inl (Or.inl done)
        · exact Or.inr (Or.inr (stays _ outside))
      · exact Or.inl (Or.inr atTop)
      · exact Or.inr (Or.inl (List.mem_append_right _ below))
    · exact Or.inr (Or.inr (stays _ outside))
  refine ⟨stripped, ?_, ?_, ?_, ?_, ?_⟩
  · rintro other (seen | rfl)
    · exact progress.reached other seen
    · exact reaches
  · intro other
    rw [StateSet.contains_erase, Bool.and_eq_true, progress.remaining_iff, decide_eq_true_eq]
    tauto
  · intro other place
    rcases place with member | seen | rfl
    · rcases List.mem_append.mp member with fromId | below
      · exact progress.known_target tame reaches found fresh fromId
      · exact (progress.known other (Or.inl (by simp [stackEq, below]))).mono monotone
    · exact (progress.known other (Or.inr seen)).mono monotone
    · exact (progress.known other (Or.inl onStack)).mono monotone
  · intro other new transition place there member
    by_cases same : other = id
    · subst same
      refine Or.inr (Or.inl (List.mem_append_left _ ?_))
      simp only [targets, there, Option.map_some, Option.getD_some]
      exact List.mem_map_of_mem member
    · have seen : visited other := place.resolve_right same
      exact arrives _ (progress.closed other new transition seen (unchanged other new same there) member)
  · exact arrives start progress.started

theorem Progress.stripTailsFrom (tame : before.Tame rule start)
    (progress : Progress before rule start visited after remaining stack) :
    ∃ seen rest, Progress before rule start seen (after.stripTailsFrom rule remaining stack) rest [] := by
  generalize sizeEq : remaining.size = size
  induction size using Nat.strongRecOn generalizing visited after remaining stack with
  | ind size ih =>
      rw [Network.stripTailsFrom]
      split
      · rename_i finished
        have passed := nextUnvisited_eq_none finished
        refine ⟨visited, remaining, progress.stripped, progress.reached, progress.remaining_iff,
          fun id place => progress.known id (Or.inr (place.resolve_left (by simp))), ?_, ?_⟩
        · intro id state transition seen found member
          rcases progress.closed id state transition seen found member with done | waiting | outside
          · exact Or.inl done
          · exact (progress.passed (passed _ waiting)).imp_right Or.inr
          · exact Or.inr (Or.inr outside)
        · rcases progress.started with done | waiting | outside
          · exact Or.inl done
          · exact (progress.passed (passed _ waiting)).imp_right Or.inr
          · exact Or.inr (Or.inr outside)
      · rename_i id rest next
        have smaller := remaining.size_erase_lt id (contains_of_nextUnvisited next)
        exact ih (remaining.erase id).size (by omega) (progress.visit tame next) rfl

/-- A call has no tail behind it that the walk could reach: nothing but the call leads there, and the walk goes
from a call to the rule that is called. -/
theorem Tame.silent_of_reaches (tame : before.Tame rule start) {source : StateId} {first : Transition}
    (fromSource : before.Reaches rule start source) (only : before.onlyTransition? source = some first)
    (basic : (before.onlyTransition? first.next).isSome = true)
    (reaches : before.Reaches rule start first.next) : first.label.isCall = false := by
  by_contra call
  have away := tame.calls source first fromSource only (by simpa using call)
  generalize follow : first.next = behind at reaches
  cases reaches with
  | start _ => exact tame.apart source first fromSource only basic follow
  | @next id state transition reachesId found member _ =>
      have leads : before.LeadsTo id first.next := ⟨state, transition, found, member, Or.inl follow.symm⟩
      obtain rfl := tame.lone source first id fromSource only basic reachesId leads
      obtain ⟨_, known, _, single⟩ := onlyTransition?_eq_some.mp only
      rw [found] at known
      cases known
      rw [single, List.mem_singleton] at member
      subst member
      rw [follow, away] at basic
      cases basic

/-- A state that the walk could reach is visited or taken out. -/
theorem Progress.complete (tame : before.Tame rule start)
    (progress : Progress before rule start visited after remaining []) {id : StateId}
    (reaches : before.Reaches rule start id) :
    visited id ∨ ∃ source exit, visited source ∧ before.tail? source = some (id, exit) := by
  have stripped := progress.stripped
  have arrives : ∀ other, before.isInRule rule other = true →
      visited other ∨ other ∈ ([] : List StateId) ∨ after.isInRule rule other = false →
      visited other ∨ ∃ source exit, visited source ∧ before.tail? source = some (other, exit) := by
    rintro other inside (done | waiting | outside)
    · exact Or.inl done
    · cases waiting
    · by_contra neither
      have same : after.state? other = before.state? other := by
        refine stripped.kept other ?_ fun seen => absurd (Or.inl seen) neither
        intro source exit seen tail
        exact neither (Or.inr ⟨source, exit, seen, tail⟩)
      rw [isInRule, same] at outside
      rw [isInRule, outside] at inside
      cases inside
  induction reaches with
  | start inside => exact arrives _ inside progress.started
  | @next id state transition reachesId found member inside ih =>
      -- If the state was taken out, the walk came to what follows it from the state in front of it; if it was
      -- visited, from the state itself, unless what follows it was taken out.
      by_cases gone : ∃ source exit, visited source ∧ before.tail? source = some (id, exit)
      · obtain ⟨source, exit, seen, tail⟩ := gone
        obtain ⟨first, last, only, rfl, onlyId, passes, rfl, _⟩ := tail?_eq_some.mp tail
        obtain ⟨sourceState, atSource, _, single⟩ := onlyTransition?_eq_some.mp only
        obtain ⟨idState, atId, _, singleId⟩ := onlyTransition?_eq_some.mp onlyId
        rw [found] at atId
        cases atId
        rw [singleId, List.mem_singleton] at member
        subst member
        have silent : first.label.isCall = false :=
          tame.silent_of_reaches (progress.reached source seen) only (by simp [onlyId]) reachesId
        have redirected := stripped.redirected source first.next _ sourceState seen tail atSource
        have toExit := Transition.target_redirect silent transition.target
        apply arrives _ inside
        rw [← toExit]
        exact progress.closed source _ _ seen redirected (by simp [single])
      · have seen : visited id := ih.resolve_right gone
        cases tail : before.tail? id with
        | none =>
            have same : after.state? id = some state := by
              rw [← found]
              refine stripped.kept id ?_ fun _ => tail
              intro source exit seenSource tailOf
              exact gone ⟨source, exit, seenSource, tailOf⟩
            exact arrives _ inside (progress.closed id state transition seen same member)
        | some pair =>
            obtain ⟨behind, exit⟩ := pair
            obtain ⟨first, _, only, rfl, _⟩ := tail?_eq_some.mp tail
            obtain ⟨idState, atId, _, single⟩ := onlyTransition?_eq_some.mp only
            rw [found] at atId
            cases atId
            rw [single, List.mem_singleton] at member
            subst member
            by_cases call : transition.label.isCall = true
            · have redirected := stripped.redirected id _ exit state seen tail found
              have same : (transition.redirect exit).target = transition.target :=
                (transition.redirect_target exit).resolve_right fun other => by
                  rw [call] at other
                  cases other.2
              apply arrives _ inside
              rw [← same]
              exact progress.closed id _ _ seen redirected (by simp [single])
            · have direct := Transition.next_of_not_call (Bool.eq_false_iff.mpr call)
              exact Or.inr ⟨id, exit, seen, direct ▸ tail⟩

end Walk

theorem contains_liveSet (network : Network) (id : StateId) :
    network.liveSet.contains id = network.isLive id := by
  simp only [StateSet.contains, liveSet, isLive, state?, Array.getElem?_map]
  cases network.states[id]? with
  | none => rfl
  | some slot => cases slot <;> rfl

theorem Progress.initial (network : Network) (rule : Option Nat) (start : StateId) :
    Progress network rule start (fun _ => False) network network.liveSet [start] where
  stripped := ⟨by simp, by simp, by simp, rfl, rfl⟩
  reached := by simp
  remaining_iff := by simp [contains_liveSet]
  known := by simp [Known]
  closed := by simp
  started := by simp

/-- Stripping the tails of an alternative takes out exactly the tails behind the states that can be reached
from its start. -/
theorem stripped_stripTails {state : State} (found : before.state? start = some state)
    (tame : before.Tame state.rule start) :
    Stripped before (before.stripTails start) (before.Reaches state.rule start) := by
  obtain ⟨seen, rest, progress⟩ := (Progress.initial before state.rule start).stripTailsFrom tame
  have walk : before.stripTails start = before.stripTailsFrom state.rule before.liveSet [start] := by
    simp [stripTails, found]
  rw [walk]
  -- a state with a tail is never taken out itself, so it is visited if and only if it is reached
  have visited_iff : ∀ id, before.tail? id ≠ none → (seen id ↔ before.Reaches state.rule start id) := by
    intro id hasTail
    refine ⟨progress.reached id, fun reaches => ?_⟩
    rcases progress.complete tame reaches with done | ⟨source, exit, _, tail⟩
    · exact done
    · exact absurd (tail?_of_removed tail) hasTail
  refine ⟨?_, ?_, ?_, progress.stripped.others, progress.stripped.size⟩
  · intro id behind exit reaches tail
    exact progress.stripped.removed id behind exit ((visited_iff id (by simp [tail])).mpr reaches) tail
  · intro id behind exit old reaches tail atId
    exact progress.stripped.redirected id behind exit old
      ((visited_iff id (by simp [tail])).mpr reaches) tail atId
  · intro id keeps unchanged
    exact progress.stripped.kept id (fun source exit done => keeps source exit (progress.reached source done))
      fun done => unchanged (progress.reached id done)

end Tame

end Network

end GrammarNetwork
