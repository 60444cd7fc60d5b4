import GrammarNetwork.Proofs.Closed
import GrammarNetwork.Proofs.Languages

/-! Runs: ways through a network that keep the states where their calls come back to on a stack. The words of
the runs through a rule are the language of the rule. -/

namespace GrammarNetwork

open Computability

/-- Where a run is, and where its calls come back to. -/
structure Configuration where
  state : StateId
  stack : List StateId

namespace Network

/-- A step of a run, with what it brings, when these actions run along the labels. The end of a rule only goes back to
where the rule was called. -/
inductive Moves (network : Network) (names : Label → Option LexerAction) :
    Configuration → Word → Configuration → Prop
  | take {id : StateId} {stack : List StateId} {state : State} {transition : Transition} {word : Word}
      (found : network.state? id = some state) (inner : state.kind ≠ .ruleStop)
      (leaves : transition ∈ state.transitions)
      (emits : transition.label.Emits network.vocabulary (names transition.label) word) :
      Moves network names ⟨id, stack⟩ word ⟨transition.target, stack⟩
  | call {id : StateId} {stack : List StateId} {state : State} {transition : Transition} {rule : Nat}
      {level : Int} {follow : StateId} (found : network.state? id = some state) (inner : state.kind ≠ .ruleStop)
      (leaves : transition ∈ state.transitions) (calls : transition.label = .call rule level follow) :
      Moves network names ⟨id, stack⟩ [] ⟨transition.target, follow :: stack⟩
  | back {id follow : StateId} {stack : List StateId} {state : State}
      (found : network.state? id = some state) (ends : state.kind = .ruleStop) :
      Moves network names ⟨id, follow :: stack⟩ [] ⟨follow, stack⟩

namespace Moves

variable {network : Network} {names : Label → Option LexerAction} {id : StateId} {stack : List StateId} {word : Word}
  {next : Configuration} {state : State}

/-- A state before the end of a rule is left along one of its transitions. -/
theorem of_inner (moves : network.Moves names ⟨id, stack⟩ word next) (found : network.state? id = some state)
    (inner : state.kind ≠ .ruleStop) : ∃ transition ∈ state.transitions,
      (transition.label.Emits network.vocabulary (names transition.label) word ∧ next = ⟨transition.target, stack⟩) ∨
        ∃ rule level follow, transition.label = .call rule level follow ∧ word = [] ∧
          next = ⟨transition.target, follow :: stack⟩ := by
  cases moves with
  | take other _ leaves emits =>
      rw [found] at other
      cases other
      exact ⟨_, leaves, Or.inl ⟨emits, rfl⟩⟩
  | call other _ leaves calls =>
      rw [found] at other
      cases other
      exact ⟨_, leaves, Or.inr ⟨_, _, _, calls, rfl, rfl⟩⟩
  | back other ends =>
      rw [found] at other
      cases other
      exact absurd ends inner

/-- The end of a rule is left for where the rule was called. -/
theorem of_stop (moves : network.Moves names ⟨id, stack⟩ word next) (found : network.state? id = some state)
    (ends : state.kind = .ruleStop) : ∃ follow below, stack = follow :: below ∧ word = [] ∧ next = ⟨follow, below⟩ := by
  cases moves with
  | take other inner | call other inner =>
      rw [found] at other
      cases other
      exact absurd ends inner
  | back => exact ⟨_, _, rfl, rfl, rfl⟩

end Moves

/-- A run with its number of steps and its word. -/
inductive Runs (network : Network) (names : Label → Option LexerAction) :
    Nat → Configuration → Word → Configuration → Prop
  | here (configuration : Configuration) : Runs network names 0 configuration [] configuration
  | move {first middle last : Configuration} {word rest : Word} {steps : Nat}
      (moves : network.Moves names first word middle) (runs : Runs network names steps middle rest last) :
      Runs network names (steps + 1) first (word ++ rest) last

/-- There is a run with this word. -/
def Leads (network : Network) (names : Label → Option LexerAction) (first : Configuration) (word : Word)
    (last : Configuration) : Prop :=
  ∃ steps, network.Runs names steps first word last

/-- The words of the runs from the start of a rule to its end, where all calls have come back. -/
def spells (network : Network) (names : Label → Option LexerAction) (index : Nat) : Language Letter :=
  Set.ofPred fun word => ∃ start stop, network.ruleStarts[index]? = some start ∧
    network.ruleStops[index]? = some stop ∧ network.Leads names ⟨start, []⟩ word ⟨stop, []⟩

namespace Leads

variable {network : Network} {names : Label → Option LexerAction} {first middle last : Configuration} {word more : Word}

theorem refl (configuration : Configuration) : network.Leads names configuration [] configuration :=
  ⟨0, .here configuration⟩

theorem of_moves (moves : network.Moves names first word last) : network.Leads names first word last :=
  ⟨1, by simpa using Runs.move moves (.here last)⟩

theorem trans (leads : network.Leads names first word middle) (next : network.Leads names middle more last) :
    network.Leads names first (word ++ more) last := by
  obtain ⟨steps, runs⟩ := leads
  induction runs with
  | here => exact next
  | move moves _ ih =>
      obtain ⟨later, runs⟩ := ih next
      rw [List.append_assoc]
      exact ⟨later + 1, .move moves runs⟩

theorem finish (leads : network.Leads names first word middle) (next : network.Leads names middle [] last) :
    network.Leads names first word last := by
  simpa using leads.trans next

/-- A run does not look at what is below its stack. -/
theorem push (leads : network.Leads names first word last) (below : List StateId) :
    network.Leads names ⟨first.state, first.stack ++ below⟩ word ⟨last.state, last.stack ++ below⟩ := by
  obtain ⟨steps, runs⟩ := leads
  induction runs with
  | here => exact refl _
  | move moves _ ih =>
      refine trans (of_moves ?_) ih
      cases moves with
      | take found inner leaves emits => exact .take found inner leaves emits
      | call found inner leaves calls => exact .call found inner leaves calls
      | back found ends => exact .back found ends

theorem silent {id : StateId} {state : State} (found : network.state? id = some state)
    (inner : state.kind ≠ .ruleStop) {target : StateId} (leaves : .silent target ∈ state.transitions)
    (stack : List StateId) : network.Leads names ⟨id, stack⟩ [] ⟨target, stack⟩ :=
  of_moves (.take found inner leaves rfl)

end Leads

section Ways

variable {network : Network} {names : Label → Option LexerAction} {rule : Option Nat} {frame : Frame}
  {start exit next : StateId} {entries : List StateId} {stack : List StateId}

/-- Words that lead from one side of a loop to the other lead through it in rounds, each of which comes back to
`fork`. -/
theorem leads_loop {fork : StateId} {inner : Language Letter}
    (again : network.Leads names ⟨fork, stack⟩ [] ⟨start, stack⟩)
    (pass : ∀ word ∈ inner, network.Leads names ⟨start, stack⟩ word ⟨exit, stack⟩)
    (back : network.Leads names ⟨exit, stack⟩ [] ⟨fork, stack⟩)
    (out : network.Leads names ⟨fork, stack⟩ [] ⟨next, stack⟩) :
    ∀ word ∈ inner∗, network.Leads names ⟨fork, stack⟩ word ⟨next, stack⟩ := by
  rintro word ⟨rounds, rfl, all⟩
  induction rounds with
  | nil => exact out
  | cons round rounds ih =>
      rw [List.forall_mem_cons] at all
      exact ((again.trans (pass round all.1)).finish back).trans (ih all.2)

/-- The words of a block lead through it, when those of its alternatives lead through them. -/
theorem leads_frame {inner : Language Letter}
    (holds : network.Holds (frame.states rule start exit entries (some next)))
    (through : ∀ word ∈ inner, ∃ target ∈ entries, network.Leads names ⟨target, stack⟩ word ⟨exit, stack⟩) :
    ∀ word ∈ frame.words inner, network.Leads names ⟨frame.entry start, stack⟩ word ⟨next, stack⟩ := by
  have atStart := holds.startState
  have atExit := holds.exitState
  have opens : (frame.startState rule exit entries).kind ≠ .ruleStop := by simp [Frame.startState]
  have closes : (frame.exitState rule start (some next)).kind ≠ .ruleStop := by simp [Frame.exitState]
  -- One way from the start of the block to its end is shared; the frames differ in how they come in, out and back.
  have pass : ∀ word ∈ inner, network.Leads names ⟨start, stack⟩ word ⟨exit, stack⟩ := by
    intro word member
    obtain ⟨target, listed, leads⟩ := through word member
    exact (Leads.silent atStart opens (List.mem_map_of_mem (Frame.mem_startTargets listed)) stack).trans leads
  cases frame with
  | plain decision =>
      intro word member
      exact (pass word member).finish (.silent atExit closes (List.mem_singleton.mpr rfl) stack)
  | optional decision greedy =>
      have out : network.Leads names ⟨exit, stack⟩ [] ⟨next, stack⟩ :=
        .silent atExit closes (List.mem_singleton.mpr rfl) stack
      intro word member
      rcases member with rfl | member
      · refine (Leads.silent atStart opens ?_ stack).trans out
        refine List.mem_map_of_mem ?_
        cases greedy <;> simp [Frame.startTargets]
      · exact (pass word member).finish out
  | star decision greedy entry loopBack loopEnd entryDecision =>
      simp only [Frame.states, Frame.loopStates, holds_cons] at holds
      obtain ⟨_, _, atEntry, atEnd, atBack, _⟩ := holds
      have fork : ∀ target, target = start ∨ target = loopEnd →
          network.Leads names ⟨entry, stack⟩ [] ⟨target, stack⟩ := fun target way =>
        .silent atEntry (by simp) (List.mem_map_of_mem (forkTargets_mem.mpr way)) stack
      have back : network.Leads names ⟨exit, stack⟩ [] ⟨entry, stack⟩ :=
        (Leads.silent atExit closes (List.mem_singleton.mpr rfl) stack).trans
          (.silent atBack (by simp) (List.mem_singleton.mpr rfl) stack)
      exact leads_loop (fork start (Or.inl rfl)) pass back
        ((fork loopEnd (Or.inr rfl)).trans (.silent atEnd (by simp) (List.mem_singleton.mpr rfl) stack))
  | plus decision greedy loopBack loopEnd loopDecision =>
      simp only [Frame.states, Frame.loopStates, holds_cons] at holds
      obtain ⟨_, _, atBack, atEnd, _⟩ := holds
      have fork : ∀ target, target = start ∨ target = loopEnd →
          network.Leads names ⟨loopBack, stack⟩ [] ⟨target, stack⟩ := fun target way =>
        .silent atBack (by simp) (List.mem_map_of_mem (forkTargets_mem.mpr way)) stack
      have back : network.Leads names ⟨exit, stack⟩ [] ⟨loopBack, stack⟩ :=
        .silent atExit closes (List.mem_singleton.mpr rfl) stack
      have loop := leads_loop (fork start (Or.inl rfl)) pass back
        ((fork loopEnd (Or.inr rfl)).trans (.silent atEnd (by simp) (List.mem_singleton.mpr rfl) stack))
      rintro word ⟨first, member, more, rounds, rfl⟩
      exact ((pass first member).finish back).trans (loop more rounds)

theorem leads_edge {others : Heap} {parts : List RulePart} (houses : network.Houses others parts)
    {source target : StateId} {label : Label}
    (found : network.state? source =
      some { rule, kind := .basic, transitions := [label.edge network.ruleStarts target] }) :
    ∀ word ∈ label.words network.vocabulary (network.spells names) (names label),
      network.Leads names ⟨source, stack⟩ word ⟨target, stack⟩ := by
  intro word member
  have leaves : label.edge network.ruleStarts target ∈ [label.edge network.ruleStarts target] :=
    List.mem_singleton.mpr rfl
  cases label with
  | call callee level _ =>
      obtain ⟨start, stop, started, stopped, leads⟩ := member
      have entered : network.Leads names ⟨source, stack⟩ [] ⟨start, target :: stack⟩ := by
        have moves : network.Moves names ⟨source, stack⟩ [] ⟨_, target :: stack⟩ :=
          .call found (by simp) leaves rfl
        simp only [Label.edge, started, Option.getD_some] at moves
        exact .of_moves moves
      rw [houses.ruleStops_getElem?, Option.map_eq_some_iff] at stopped
      obtain ⟨part, known, rfl⟩ := stopped
      exact (entered.trans (leads.push (target :: stack))).finish
        (.of_moves (.back (houses.state?_stop known) rfl))
  | _ => exact .of_moves (.take found (by simp) leaves member)

mutual

theorem leads_trail {others : Heap} {parts : List RulePart} (houses : network.Houses others parts) :
    ∀ (trail : Trail) {next id : StateId}, network.Holds (trail.layout network.ruleStarts rule (some next)) →
    trail.enter (some next) = some id →
    ∀ word ∈ trail.words network.vocabulary (network.spells names) (fun _ => names),
      network.Leads names ⟨id, stack⟩ word ⟨next, stack⟩
  | .done, next, id, _, enters, word, member => by
      cases enters
      cases member
      exact .refl _
  | .step source label rest, next, id, holds, enters, word, member => by
      cases enters
      obtain ⟨first, emitted, more, later, rfl⟩ := member
      obtain ⟨target, entered⟩ := rest.enter_some next
      simp only [Trail.layout, holds_cons, entered] at holds
      exact (leads_edge houses holds.1 first emitted).trans (leads_trail houses rest holds.2 entered more later)
  | .gap source rest, next, id, _, _, word, member => member.elim
  | .block frame start exit ways rest, next, id, holds, enters, word, member => by
      cases enters
      obtain ⟨first, inside, more, later, rfl⟩ := member
      obtain ⟨target, entered⟩ := rest.enter_some next
      simp only [Trail.layout, holds_append, entered] at holds
      have through := leads_frame holds.1 (leads_ways houses ways holds.2.1) first inside
      exact through.trans (leads_trail houses rest holds.2.2 entered more later)

theorem leads_ways {others : Heap} {parts : List RulePart} (houses : network.Houses others parts) :
    ∀ (ways : Ways) {exit : StateId}, network.Holds (ways.layout network.ruleStarts rule exit) →
    ∀ word ∈ ways.words network.vocabulary (network.spells names) (fun _ => names),
      ∃ target ∈ ways.entries exit, network.Leads names ⟨target, stack⟩ word ⟨exit, stack⟩
  | .none, exit, _, word, member => member.elim
  | .more way rest, exit, holds, word, member => by
      simp only [Ways.layout, holds_append] at holds
      rcases member with first | later
      · obtain ⟨target, entered⟩ := way.enter_some exit
        refine ⟨target, ?_, leads_trail houses way holds.1 entered word first⟩
        simp only [Trail.enter] at entered
        cases found : way.first? <;> simp [found] at entered <;> simp [Ways.entries, found, entered]
      · obtain ⟨target, listed, leads⟩ := leads_ways houses rest holds.2 word later
        exact ⟨target, List.mem_cons_of_mem _ listed, leads⟩

end

end Ways

/-- A run of at most `bound` steps from `source` comes to `target` and has a word of the language until then, when it
does not end before. It ends in no call, and so it does not end in a call or at a state that is not inside. -/
def Splits (network : Network) (names : Label → Option LexerAction) (inside : StateId → Prop) (final : StateId)
    (bound : Nat) (source target : StateId) (language : Language Letter) : Prop :=
  ∀ stack word steps, (stack = [] → ¬inside final) → steps ≤ bound →
    network.Runs names steps ⟨source, stack⟩ word ⟨final, []⟩ →
    ∃ first rest fewer, word = first ++ rest ∧ first ∈ language ∧ fewer ≤ steps ∧
      network.Runs names fewer ⟨target, stack⟩ rest ⟨final, []⟩

namespace Splits

variable {network : Network} {names : Label → Option LexerAction} {inside : StateId → Prop} {final : StateId}
  {bound : Nat} {source middle target : StateId} {language larger : Language Letter}

theorem refl (source : StateId) : network.Splits names inside final bound source source 1 :=
  fun _ word steps _ _ runs => ⟨[], word, steps, rfl, rfl, Nat.le_refl _, runs⟩

theorem trans (first : network.Splits names inside final bound source middle language)
    (second : network.Splits names inside final bound middle target larger) :
    network.Splits names inside final bound source target (language * larger) := by
  intro stack word steps outside small runs
  obtain ⟨left, rest, fewer, rfl, here, less, runs⟩ := first stack word steps outside small runs
  obtain ⟨right, rest, fewest, rfl, there, least, runs⟩ :=
    second stack rest fewer outside (Nat.le_trans less small) runs
  exact ⟨left ++ right, rest, fewest, (List.append_assoc ..).symm, ⟨left, here, right, there, rfl⟩,
    Nat.le_trans least less, runs⟩

theorem mono (splits : network.Splits names inside final bound source target language) (le : language ≤ larger) :
    network.Splits names inside final bound source target larger := by
  intro stack word steps outside small runs
  obtain ⟨first, rest, fewer, same, member, less, runs⟩ := splits stack word steps outside small runs
  exact ⟨first, rest, fewer, same, le member, less, runs⟩

theorem smaller {bounded : Nat} (splits : network.Splits names inside final bound source target language)
    (less : bounded ≤ bound) : network.Splits names inside final bounded source target language :=
  fun stack word steps outside small => splits stack word steps outside (Nat.le_trans small less)

theorem of_moves (within : inside source)
    (after : ∀ stack word next rest steps, (stack = [] → ¬inside final) → steps < bound →
      network.Moves names ⟨source, stack⟩ word next → network.Runs names steps next rest ⟨final, []⟩ →
      ∃ first more fewer, word ++ rest = first ++ more ∧ first ∈ language ∧ fewer ≤ steps ∧
        network.Runs names fewer ⟨target, stack⟩ more ⟨final, []⟩) :
    network.Splits names inside final bound source target language := by
  intro stack word steps outside small runs
  cases runs with
  | here => exact absurd within (outside rfl)
  | @move _ next _ word rest steps moves runs =>
      obtain ⟨first, more, fewer, same, member, less, runs⟩ :=
        after stack word next rest steps outside small moves runs
      exact ⟨first, more, fewer, same, member, Nat.le_succ_of_le less, runs⟩

/-- A state inside that can only be left without bringing anything. -/
theorem silent {state : State} {targets : List StateId} (within : inside source)
    (found : network.state? source = some state) (inner : state.kind ≠ .ruleStop)
    (leaves : state.transitions = targets.map .silent)
    (after : ∀ next ∈ targets, ∀ less < bound, network.Splits names inside final less next target language) :
    network.Splits names inside final bound source target language := by
  refine of_moves within fun stack word next rest steps outside small moves runs => ?_
  obtain ⟨transition, member, way⟩ := moves.of_inner found inner
  rw [leaves, List.mem_map] at member
  obtain ⟨next, listed, rfl⟩ := member
  rcases way with ⟨rfl, rfl⟩ | ⟨_, _, _, calls, _⟩
  · exact after next listed steps small stack rest steps outside (Nat.le_refl _) runs
  · cases calls

end Splits

section Splitting

variable {network : Network} {names : Label → Option LexerAction} {others : Heap} {parts : List RulePart}
  {inside : StateId → Prop} {final : StateId} {bound : Nat} {rule : Option Nat} {meanings : Meanings}

/-- The state is there and is not the end of a rule. -/
def IsInner (network : Network) (id : StateId) : Prop :=
  ∃ state, network.state? id = some state ∧ state.kind ≠ .ruleStop

/-- What a run needs to get through the rules that are called. -/
def SplitsCalls (network : Network) (names : Label → Option LexerAction) (final : StateId) (bound : Nat)
    (meanings : Meanings) : Prop :=
  ∀ less < bound, ∀ index start stop, network.ruleStarts[index]? = some start →
    network.ruleStops[index]? = some stop →
    network.Splits names network.IsInner final less start stop (meanings index)

theorem splits_link {source next : StateId} {state : State} (within : inside source)
    (found : network.state? source = some state) (inner : state.kind ≠ .ruleStop)
    (leaves : state.transitions = [.silent next]) : network.Splits names inside final bound source next 1 := by
  refine .silent within found inner (leaves.trans List.map_singleton.symm) fun target listed _ _ => ?_
  obtain rfl := List.mem_singleton.mp listed
  exact .refl target

/-- A run gets through a loop in rounds, each of which comes back to `fork` with fewer steps left. -/
theorem splits_loop {fork start exit loopEnd next : StateId} {state : State} {greedy : Bool} {inner : Language Letter}
    (within : inside fork) (found : network.state? fork = some state) (before : state.kind ≠ .ruleStop)
    (leaves : state.transitions = (forkTargets greedy start loopEnd).map .silent)
    (pass : ∀ bounded ≤ bound, network.Splits names inside final bounded start exit inner)
    (back : ∀ bounded, network.Splits names inside final bounded exit fork 1)
    (out : ∀ bounded, network.Splits names inside final bounded loopEnd next 1) :
    ∀ bounded ≤ bound, network.Splits names inside final bounded fork next inner∗ := by
  intro bounded
  induction bounded using Nat.strong_induction_on with
  | _ bounded ih =>
      intro small
      refine .silent within found before leaves fun target listed less fewer => ?_
      have few := Nat.le_trans (Nat.le_of_lt fewer) small
      rcases forkTargets_mem.mp listed with rfl | rfl
      · have round := (pass less few).trans ((back less).trans (ih less fewer few))
        rw [one_mul] at round
        exact round.mono mul_kstar_le_kstar
      · exact (out less).mono one_le_kstar

/-- A run gets through a block with a word of the block, when it gets through the alternatives with their
words. -/
theorem splits_frame {frame : Frame} {start exit next : StateId} {entries : List StateId} {inner : Language Letter}
    (holds : network.Holds (frame.states rule start exit entries (some next)))
    (within : ∀ id ∈ start :: exit :: frame.loopIds, inside id)
    (through : ∀ target ∈ entries, network.Splits names inside final bound target exit inner) :
    network.Splits names inside final bound (frame.entry start) next (frame.words inner) := by
  have opens : (frame.startState rule exit entries).kind ≠ .ruleStop := by simp [Frame.startState]
  have closes : (frame.exitState rule start (some next)).kind ≠ .ruleStop := by simp [Frame.exitState]
  have atStart := holds.startState
  have atExit := holds.exitState
  simp only [List.forall_mem_cons] at within
  obtain ⟨startWithin, exitWithin, within⟩ := within
  -- The start of an optional block also leads past the alternatives, so its words are split on their own.
  have pass : frame.startTargets exit entries = entries → ∀ bounded ≤ bound,
      network.Splits names inside final bounded start exit inner := fun same bounded small =>
    .silent startWithin atStart opens rfl fun target listed less fewer =>
      (through target (same ▸ listed)).smaller (Nat.le_trans (Nat.le_of_lt fewer) small)
  cases frame with
  | plain decision =>
      have out : network.Splits names inside final bound exit next 1 := splits_link exitWithin atExit closes rfl
      have whole := (pass rfl bound (Nat.le_refl _)).trans out
      rwa [mul_one] at whole
  | optional decision greedy =>
      have out : ∀ less, network.Splits names inside final less exit next 1 :=
        fun less => splits_link exitWithin atExit closes rfl
      refine .silent startWithin atStart opens rfl fun target listed less small => ?_
      have way : target = exit ∨ target ∈ entries := by
        cases greedy <;> simp [Frame.startTargets, or_comm] at listed <;> exact listed
      rcases way with rfl | entered
      · exact (out less).mono le_self_add
      · have passed := ((through target entered).smaller (Nat.le_of_lt small)).trans (out less)
        exact passed.mono (by simp [Frame.words])
  | star decision greedy entry loopBack loopEnd entryDecision =>
      simp only [Frame.states, Frame.loopStates, holds_cons] at holds
      obtain ⟨_, _, atEntry, atEnd, atBack, _⟩ := holds
      simp only [Frame.loopIds, List.forall_mem_cons] at within
      obtain ⟨entryWithin, endWithin, backWithin, _⟩ := within
      have back : ∀ bounded, network.Splits names inside final bounded exit entry 1 := by
        intro bounded
        rw [← one_mul 1]
        exact (splits_link exitWithin atExit closes rfl).trans (splits_link backWithin atBack (by simp) rfl)
      exact splits_loop entryWithin atEntry (by simp) rfl (pass rfl) back
        (fun _ => splits_link endWithin atEnd (by simp) rfl) bound (Nat.le_refl _)
  | plus decision greedy loopBack loopEnd loopDecision =>
      simp only [Frame.states, Frame.loopStates, holds_cons] at holds
      obtain ⟨_, _, atBack, atEnd, _⟩ := holds
      simp only [Frame.loopIds, List.forall_mem_cons] at within
      obtain ⟨backWithin, endWithin, _⟩ := within
      have back : ∀ bounded, network.Splits names inside final bounded exit loopBack 1 :=
        fun _ => splits_link exitWithin atExit closes rfl
      have loop := splits_loop backWithin atBack (by simp) rfl (pass rfl) back
        (fun _ => splits_link endWithin atEnd (by simp) rfl) bound (Nat.le_refl _)
      have whole := (pass rfl bound (Nat.le_refl _)).trans ((back bound).trans loop)
      rwa [one_mul] at whole

/-- A run that is at the end of a rule goes back to where the rule was called. -/
theorem Runs.back {stop follow : StateId} {stack : List StateId} {word : Word} {steps : Nat} {state : State}
    (runs : network.Runs names steps ⟨stop, follow :: stack⟩ word ⟨final, []⟩)
    (found : network.state? stop = some state) (stops : state.kind = .ruleStop) :
    ∃ fewer ≤ steps, network.Runs names fewer ⟨follow, stack⟩ word ⟨final, []⟩ := by
  cases runs with
  | @move _ _ _ _ _ steps moves later =>
      obtain ⟨_, _, same, rfl, rfl⟩ := moves.of_stop found stops
      cases same
      exact ⟨steps, Nat.le_succ steps, later⟩

theorem splits_edge (houses : network.Houses others parts) (callees : network.SplitsCalls names final bound meanings)
    {source target : StateId} {label : Label} (within : inside source)
    (below : ∀ index, label.callee? = some index → index < network.ruleStarts.size)
    (found : network.state? source =
      some { rule, kind := .basic, transitions := [label.edge network.ruleStarts target] }) :
    network.Splits names inside final bound source target (label.words network.vocabulary meanings (names label)) := by
  refine .of_moves within fun stack word next rest steps _ small moves runs => ?_
  obtain ⟨transition, member, way⟩ := moves.of_inner found (by simp)
  obtain rfl := List.mem_singleton.mp member
  rcases way with ⟨emits, rfl⟩ | ⟨_, _, _, calls, rfl, rfl⟩
  · cases label with
    | call => cases emits
    | _ => exact ⟨word, rest, steps, rfl, emits, Nat.le_refl _, runs⟩
  · cases label with
    | call callee level old =>
        have bound : callee < network.ruleStarts.size := below callee rfl
        simp only [Label.edge, Label.call.injEq] at calls
        obtain ⟨_, _, rfl⟩ := calls
        rw [houses.startsSize] at bound
        have known := List.getElem?_eq_getElem bound
        have started := houses.ruleStarts_getElem? callee
        have stopped := houses.ruleStops_getElem? callee
        rw [known] at started stopped
        simp only [Label.edge, started, Option.map_some, Option.getD_some] at runs
        -- The run ends in no call, and here it is in one.
        obtain ⟨first, more, fewer, rfl, member, less, runs⟩ :=
          callees steps small callee _ _ started stopped _ rest steps (by simp) (Nat.le_refl _) runs
        obtain ⟨fewest, least, runs⟩ := runs.back (houses.state?_stop known) rfl
        exact ⟨first, more, fewest, rfl, member, Nat.le_trans least less, runs⟩
    | _ => cases calls

mutual

theorem splits_trail (houses : network.Houses others parts) (callees : network.SplitsCalls names final bound meanings) :
    ∀ (trail : Trail) {next id : StateId}, trail.CallsBelow network.ruleStarts.size →
    network.Holds (trail.layout network.ruleStarts rule (some next)) → (∀ id ∈ trail.ids, inside id) →
    trail.enter (some next) = some id →
    network.Splits names inside final bound id next (trail.words network.vocabulary meanings fun _ => names)
  | .done, next, id, _, _, _, enters => by
      cases enters
      exact .refl next
  | .step source label rest, next, id, calls, holds, within, enters => by
      cases enters
      simp only [Trail.CallsBelow, Trail.labels, List.forall_mem_cons] at calls
      obtain ⟨target, entered⟩ := rest.enter_some next
      simp only [Trail.layout, holds_cons, entered] at holds
      rw [Trail.ids, List.forall_mem_cons] at within
      exact (splits_edge houses callees within.1 calls.1 holds.1).trans
        (splits_trail houses callees rest calls.2 holds.2 within.2 entered)
  | .gap source rest, next, id, _, holds, within, enters => by
      cases enters
      simp only [Trail.layout, holds_cons] at holds
      rw [Trail.ids, List.forall_mem_cons] at within
      exact .silent within.1 holds.1 (by simp) List.map_nil.symm (by simp)
  | .block frame start exit ways rest, next, id, calls, holds, within, enters => by
      cases enters
      simp only [Trail.CallsBelow, Trail.labels, List.forall_mem_append] at calls
      obtain ⟨target, entered⟩ := rest.enter_some next
      simp only [Trail.layout, holds_append, entered] at holds
      simp only [Trail.ids, List.forall_mem_append] at within
      have through := splits_ways houses callees ways calls.1 holds.2.1 within.2.1
      exact (splits_frame holds.1 within.1 through).trans
        (splits_trail houses callees rest calls.2 holds.2.2 within.2.2 entered)

theorem splits_ways (houses : network.Houses others parts) (callees : network.SplitsCalls names final bound meanings) :
    ∀ (ways : Ways) {exit : StateId},
    (∀ label ∈ ways.labels, ∀ index, label.callee? = some index → index < network.ruleStarts.size) →
    network.Holds (ways.layout network.ruleStarts rule exit) → (∀ id ∈ ways.ids, inside id) →
    ∀ target ∈ ways.entries exit,
    network.Splits names inside final bound target exit (ways.words network.vocabulary meanings fun _ => names)
  | .none, _, _, _, _, target, listed => by simp [Ways.entries] at listed
  | .more way rest, exit, calls, holds, within, target, listed => by
      simp only [Ways.labels, List.forall_mem_append] at calls
      simp only [Ways.layout, holds_append] at holds
      rw [Ways.ids, List.forall_mem_append] at within
      rcases List.mem_cons.mp listed with first | later
      · have entered : way.enter (some exit) = some target := by
          rw [first]
          cases found : way.first? <;> simp [Trail.enter, found]
        exact (splits_trail houses callees way calls.1 holds.1 within.1 entered).mono le_self_add
      · exact (splits_ways houses callees rest calls.2 holds.2 within.2 target later).mono le_add_self

end

theorem isInner_of_holds {heap : Heap} (holds : network.Holds heap)
    (inner : ∀ entry ∈ heap, entry.2.IsInner rule) : ∀ id ∈ heap.ids, network.IsInner id := by
  intro id listed
  obtain ⟨state, member⟩ := Heap.mem_ids.mp listed
  exact ⟨state, holds id state member, (inner _ member).2⟩

theorem Houses.splitsCalls (houses : network.Houses others parts)
    (covers : ∀ index part, parts[index]? = some part →
      part.body.words network.vocabulary meanings (fun _ => names) ≤ meanings index) :
    ∀ bound, network.SplitsCalls names final bound meanings := by
  intro bound
  -- A rule is entered with one step, so the rules that it calls have fewer steps left.
  induction bound using Nat.strong_induction_on with
  | _ bound ih =>
      intro less small index start stop started stopped
      rw [houses.ruleStarts_getElem?, Option.map_eq_some_iff] at started
      obtain ⟨part, known, rfl⟩ := started
      rw [houses.ruleStops_getElem?, known] at stopped
      cases stopped
      have atStart := houses.state?_start known
      have holds := houses.holds_body known
      have within := isInner_of_holds holds part.body.isInner_layout
      rw [Trail.ids_layout] at within
      refine .silent ⟨_, atStart, by simp⟩ atStart (by simp) rfl fun target listed fewer least => ?_
      have entered := Trail.enter_of_first? (Option.mem_toList.mp listed) (some part.stop)
      have callees := ih fewer (Nat.lt_trans least small)
      exact (splits_trail houses callees part.body (houses.callsBelow known) holds within entered).mono
        (covers index part known)

/-- A run from the start of a rule to its end has a word of the rule, whatever words the rules have that are
closed under their bodies. -/
theorem Houses.spells_le (houses : network.Houses others parts)
    (covers : ∀ index part, parts[index]? = some part →
      part.body.words network.vocabulary meanings (fun _ => names) ≤ meanings index) :
    network.spells names ≤ meanings := by
  rintro index word ⟨start, stop, started, stopped, steps, runs⟩
  have found := houses.ruleStops_getElem? index
  rw [stopped, eq_comm, Option.map_eq_some_iff] at found
  obtain ⟨part, known, rfl⟩ := found
  have atStop := houses.state?_stop known
  have ended : ¬network.IsInner part.stop := by
    rintro ⟨state, other, inner⟩
    rw [atStop] at other
    cases other
    exact inner rfl
  obtain ⟨first, rest, fewer, rfl, member, _, runs⟩ := houses.splitsCalls covers (steps + 1) steps
    (Nat.lt_succ_self steps) index start part.stop started stopped [] word steps (fun _ => ended) (Nat.le_refl _) runs
  cases runs with
  | here =>
      rw [List.append_nil]
      exact member
  | move moves =>
      obtain ⟨_, _, same, _⟩ := moves.of_stop atStop rfl
      cases same

end Splitting

end Network

theorem Trail.first?_erase (trail : Trail) : trail.erase.first?.isSome = trail.first?.isSome := by
  cases trail <;> rfl

namespace Plan.Makes

variable {plan : Plan} {network : Network} {others : Heap} {parts : List RulePart}

theorem first?_body (makes : plan.Makes network others parts) {index : Nat} {part : RulePart}
    (found : parts[index]? = some part) : ∃ id, part.body.first? = some id := by
  obtain ⟨rule, _, draws⟩ := makes.draws_part found
  obtain ⟨id, first⟩ := (Plan.sketched_body draws.body).opens.first?
  refine Option.isSome_iff_exists.mp ?_
  rw [← Trail.first?_erase, first]
  rfl

theorem words_body (makes : plan.Makes network others parts) {index : Nat} {part : RulePart}
    (found : parts[index]? = some part) (vocabulary : IntervalSet) (meanings : Meanings) :
    part.body.words vocabulary meanings .blank = plan.ruleWords vocabulary (fun _ => none) meanings index := by
  obtain ⟨rule, listed, draws⟩ := makes.draws_part found
  rw [← Trail.words_erase, words_sketchBody draws.body, ruleWords, listed]
  rfl

theorem words_body_language (makes : plan.Makes network others parts) {index : Nat} {part : RulePart}
    (found : parts[index]? = some part) (vocabulary : IntervalSet) :
    part.body.words vocabulary (plan.plainLanguage vocabulary) .blank = plan.plainLanguage vocabulary index := by
  rw [makes.words_body found, ruleWords_plainLanguage]

theorem words_le_spells (makes : plan.Makes network others parts) {index : Nat} {part : RulePart}
    (found : parts[index]? = some part) (names : Label → Option LexerAction) :
    part.body.words network.vocabulary (network.spells names) (fun _ => names) ≤ network.spells names index := by
  intro word member
  have houses := makes.houses
  obtain ⟨id, first⟩ := makes.first?_body found
  refine ⟨part.start, part.stop, ?_, ?_, ?_⟩
  · rw [houses.ruleStarts_getElem?, found, Option.map_some]
  · rw [houses.ruleStops_getElem?, found, Option.map_some]
  · have enters : network.Leads names ⟨part.start, []⟩ [] ⟨id, []⟩ :=
      .silent (houses.state?_start found) (by simp) (by simp [first]) []
    exact enters.trans (Network.leads_trail houses part.body (houses.holds_body found)
      (Trail.enter_of_first? first _) word member)

/-- The runs through the rules have the words of the least solution of the grammar, when the bodies of the rules have
the words of their syntax trees. -/
theorem spells_eq (makes : plan.Makes network others parts) {names : Label → Option LexerAction}
    {acts : Item → Option LexerAction}
    (means : ∀ index part, parts[index]? = some part → ∀ meanings,
      part.body.words network.vocabulary meanings (fun _ => names) =
        plan.ruleWords network.vocabulary acts meanings index) :
    network.spells names = plan.language network.vocabulary acts := by
  refine le_antisymm (makes.houses.spells_le fun index part found => ?_) (Plan.language_le fun index => ?_)
  · rw [means index part found, ruleWords_language]
  · cases listed : plan.grammar.rules[index]? with
    | none =>
        simp only [Plan.ruleWords, listed]
        exact fun _ member => member.elim
    | some rule =>
        obtain ⟨part, found, _⟩ := makes.part_of_rule listed
        rw [← means index part found]
        exact makes.words_le_spells found names

end Plan.Makes

end GrammarNetwork
