import GrammarNetwork.Proofs.Findings
import GrammarNetwork.Proofs.Passages

/-! Noticing: a block that repeats what can match nothing is reported, unless the lookahead refuses a call on the way
through it. -/

namespace GrammarNetwork

/-- Some alternative of the block derives a word without symbols. -/
def Plan.DerivesNothing (plan : Plan) (network : Network) (index : Nat) (block : Block) : Prop :=
  MatchesNothing
    (plan.plainWords network.vocabulary (plan.plainLanguage network.vocabulary) index block.alternatives)

/-- The lookahead refuses a call on a way through the block. -/
def Plan.MissesAt (plan : Plan) (network : Network) (spot : Spot) : Prop :=
  ∃ start ∈ spot.starts, network.Misses (plan.plainLanguage network.vocabulary) start spot.exit

theorem Ways.exists_matchesNothing {vocabulary : IntervalSet} {meanings : Meanings} {names : Naming} :
    ∀ {ways : Ways}, MatchesNothing (ways.words vocabulary meanings names) →
    ∃ way ∈ ways.toList, MatchesNothing (way.words vocabulary meanings names)
  | .none, empty => (MatchesNothing.zero_iff.mp empty).elim
  | .more way rest, empty => by
      rcases MatchesNothing.add_iff.mp empty with first | later
      · exact ⟨way, List.mem_cons_self, first⟩
      · obtain ⟨other, listed, through⟩ := Ways.exists_matchesNothing later
        exact ⟨other, List.mem_cons_of_mem _ listed, through⟩

theorem Ways.mem_entries {exit target : StateId} {way : Trail} : ∀ {ways : Ways}, way ∈ ways.toList →
    way.enter (some exit) = some target → target ∈ ways.entries exit
  | .more first rest, listed, entered => by
      rcases List.mem_cons.mp listed with rfl | later
      · refine List.mem_cons.mpr (Or.inl ?_)
        unfold Trail.enter at entered
        cases found : way.first? <;> simp_all
      · exact List.mem_cons_of_mem _ (Ways.mem_entries later entered)

theorem Network.Lays.isLive {network : Network} {index : Nat} {frame : Frame} {block : Handle × Ways}
    (lays : network.Lays index frame block) {id : StateId} (listed : id ∈ block.2.ids) :
    network.isLive id = true := by
  rw [← Ways.ids_layout network.ruleStarts (some index) block.2 block.1.right] at listed
  obtain ⟨state, member⟩ := Heap.mem_ids.mp listed
  exact network.isLive_iff.mpr ⟨state, lays.holds id state member⟩

/-- The search does not end before the end of the block. -/
theorem Network.Lays.goes {network : Network} {index : Nat} {frame : Frame} {block : Handle × Ways}
    (lays : network.Lays index frame block) {id : StateId} (listed : id ∈ block.2.ids) {stack : List StateId} :
    ¬Network.EndsAt block.1.right stack id := by
  rintro ⟨same, _⟩
  cases same
  exact lays.apart listed

namespace Plan.Makes

variable {plan : Plan} {network : Network} {others : Heap} {parts : List RulePart} {index : Nat} {frame : Frame}
  {block : Handle × Ways} {written : Block}

/-- What derives nothing does so after some rounds. -/
theorem derives_round (stands : plan.StandsFor index written block)
    (derives : plan.DerivesNothing network index written) :
    ∃ count, MatchesNothing (block.2.words network.vocabulary (plan.rounds network.vocabulary count) .blank) := by
  obtain ⟨count, empty⟩ := alternatives_round (fun _ => language_round) written.alternatives derives
  exact ⟨count, by rwa [stands]⟩

theorem passesCalls_outside (makes : plan.Makes network others parts) {start exit : StateId} {search : LookSearch}
    (thorough : network.Thorough (plan.plainLanguage network.vocabulary) start exit search) (count : Nat) :
    network.PassesCalls index [] search (plan.rounds network.vocabulary count) exit :=
  makes.passesCalls thorough count index [] fun _ _ _ inside => by cases inside

/-- A loop whose body derives nothing is found, or a call is missed. -/
theorem finds_loop (makes : plan.Makes network others parts) (lays : network.Lays index frame block)
    (stands : plan.StandsFor index written block) (derives : plan.DerivesNothing network index written) :
    network.finds Network.look (loopSpot block) = true ∨ plan.MissesAt network (loopSpot block) := by
  by_cases fair : network.Misses (plan.plainLanguage network.vocabulary) block.1.left block.1.right
  · exact Or.inr ⟨_, List.mem_singleton.mpr rfl, fair⟩
  obtain ⟨count, empty⟩ := derives_round stands derives
  refine Or.inl (List.any_eq_true.mpr ⟨_, List.mem_singleton.mpr rfl, ?_⟩)
  refine Network.look_of_passes makes.houses.closed (network.isLive_iff.mpr ⟨_, lays.opens⟩) fair
    fun search thorough known => ?_
  obtain ⟨target, entered, through⟩ := Network.passes_ways thorough (makes.passesCalls_outside thorough count)
    block.2 lays.holds (fun id listed => lays.goes listed) empty
  refine through (thorough.silent (fun ends => lays.distinct (Option.some.inj ends.1).symm) lays.opens ?_ ?_ known)
  · simp [Frame.startState]
  · exact List.mem_map_of_mem (Frame.mem_startTargets entered)

/-- An optional block one of whose alternatives derives nothing is found, or a call is missed. -/
theorem finds_optional (makes : plan.Makes network others parts) (lays : network.Lays index frame block)
    (stands : plan.StandsFor index written block) (derives : plan.DerivesNothing network index written) :
    network.finds Network.look (optionalSpot block) = true ∨ plan.MissesAt network (optionalSpot block) := by
  obtain ⟨count, empty⟩ := derives_round stands derives
  obtain ⟨way, listed, through⟩ := Ways.exists_matchesNothing empty
  obtain ⟨target, entered⟩ := way.enter_some block.1.right
  have start : target ∈ (optionalSpot block).starts := Ways.mem_entries listed entered
  by_cases fair : network.Misses (plan.plainLanguage network.vocabulary) target block.1.right
  · exact Or.inr ⟨_, start, fair⟩
  refine Or.inl (List.any_eq_true.mpr ⟨_, start, ?_⟩)
  have inside : target ∈ block.2.ids := Ways.mem_ids_of_entries lays.filled start
  refine Network.look_of_passes makes.houses.closed (lays.isLive inside) fair fun search thorough => ?_
  exact Network.passes_trail thorough (makes.passesCalls_outside thorough count) way
    (Ways.holds_of_mem lays.holds listed) (fun id member => lays.goes ((Ways.ids_of_mem listed).subset member))
    entered through

end Plan.Makes

/-- Each loop of a rule whose body derives nothing is reported, and so is each optional block of a parser with an
alternative that derives nothing, unless the lookahead refuses a call there of a rule that matches nothing though it
is not inside a call of that rule. -/
theorem Draft.run_notices (draft : Draft) (kind : GrammarKind) (templates : Templates) (journal : Journal) :
    match draft.build with
    | .error _ => True
    | .ok grammar =>
        let plan : Plan := { grammar, kind, templates }
        match plan.run journal with
        | .error _ _ => True
        | .ok network after => ∃ reported, after.journal.closing = journal.closing ++ reported ∧
            ∀ (index : Nat) (rule : Rule), grammar.rules[index]? = some rule →
              plan.Reports network index rule Repetition.isLoop loopSpot
                (fun block spot => plan.DerivesNothing network index block →
                  network.finds Network.look spot = true ∨ plan.MissesAt network spot)
                (reportsOn rule Problem.isEmptyLoop reported)
                (plan.finding rule (if rule.leftRecursive then .emptyLeftRecursion else .emptyLoop)) ∧
              (kind = .parser → plan.Reports network index rule (· = .optional) optionalSpot
                (fun block spot => plan.DerivesNothing network index block →
                  network.finds Network.look spot = true ∨ plan.MissesAt network spot)
                (reportsOn rule (· = .emptyOptional) reported) (plan.finding rule .emptyOptional)) := by
  split
  · trivial
  rename_i grammar built
  intro plan
  split
  · trivial
  rename_i network after ends
  obtain ⟨others, parts, makes, closing, _⟩ := Plan.completes_of_run ends
  have checked := Draft.checked_of_build built
  refine ⟨_, closing, fun index rule listed => ⟨?_, fun parser => ?_⟩⟩
  · exact makes.reports_loops checked listed fun _ _ _ _ lays stands => makes.finds_loop lays stands
  · exact makes.reports_optionals checked listed parser fun _ _ _ _ lays stands => makes.finds_optional lays stands

/-- `a : (b b)* ; b : X | ;`, where the search may not call `b` again after it has come back from it. -/
def twiceEmpty : Draft where
  kind := .parser
  name := "P"
  rules := [
    { name := "a"
      alternatives := [{ elements := [⟨.block
        { alternatives := [{ elements := [⟨.rule "b" none, none⟩, ⟨.rule "b" none, none⟩] }]
          suffix := some ⟨.star, true⟩ }, none⟩] }] },
    { name := "b", alternatives := [{ elements := [⟨.token "X", none⟩] }, { elements := [] }] }]

def twiceEmptyGrammar : Grammar where
  kind := .parser
  name := "P"
  fileName := "P.g4"
  caseInsensitive := false
  rules := twiceEmpty.rules.toArray
  tokens := ["X"]
  channels := []
  modes := [defaultModeName]
  actionCount := 0

theorem twiceEmpty_build : twiceEmpty.build = .ok twiceEmptyGrammar := rfl

theorem twiceEmpty_callee (vocabulary : IntervalSet) :
    MatchesNothing ((Plan.ofGrammar twiceEmptyGrammar).plainLanguage vocabulary 1) := by
  have listed : (Plan.ofGrammar twiceEmptyGrammar).grammar.rules[1]? = some
      { name := "b", alternatives := [{ elements := [⟨.token "X", none⟩] }, { elements := [] }] } := rfl
  rw [← Plan.ruleWords_plainLanguage]
  simp [Plan.ruleWords, listed, Plan.alternativeWords, Plan.listWords, Plan.commandWords]

theorem Plan.derivesNothing_twice {plan : Plan} {network : Network} {name : String} {callee : Nat}
    (parser : plan.kind = .parser) (known : plan.grammar.ruleIndex? name = some callee)
    (empty : MatchesNothing (plan.plainLanguage network.vocabulary callee)) (suffix : Option Suffix) :
    plan.DerivesNothing network 0
      { alternatives := [{ elements := [⟨.rule name none, none⟩, ⟨.rule name none, none⟩] }], suffix } := by
  have leaf : plan.leaf? 0 ⟨.rule name none, none⟩ = some (.chain [.call callee 0 0]) := by
    simp [leaf?, parser, parserLeaf?, callLeaf?, known]
  have call : ∀ meanings, Label.words network.vocabulary meanings none (.call callee 0 0) = meanings callee :=
    fun _ => rfl
  simp [DerivesNothing, plainWords, Site.child, alternativeWords, listWords, commandWords, elementWords, leaf, Leaf.words,
    call, empty]

set_option maxRecDepth 100000 in
theorem twiceEmpty_silent : (twiceEmpty.network?.map fun built => built.2.2.diagnostics) = some [] := by
  decide +kernel

/-- Nothing is reported, though the body of the loop derives nothing. -/
theorem twiceEmpty_unnoticed : ∃ grammar network journal, twiceEmpty.network? = some (grammar, network, journal) ∧
    journal.diagnostics = [] ∧ ∃ rule ∈ grammar.rules, ∃ block ∈ rule.blocks,
      block.repeats Repetition.isLoop = true ∧ (Plan.ofGrammar grammar).DerivesNothing network 0 block := by
  obtain ⟨⟨grammar, network, journal⟩, found, nothing⟩ := Option.map_eq_some_iff.mp twiceEmpty_silent
  obtain rfl : twiceEmptyGrammar = grammar :=
    Except.ok.inj (twiceEmpty_build.symm.trans (Draft.build_of_network? found))
  refine ⟨_, network, journal, found, nothing, twiceEmpty.rules[0], ?_, _, List.mem_cons_self, rfl,
    Plan.derivesNothing_twice rfl (by decide +kernel) (twiceEmpty_callee _) _⟩
  exact List.mem_toArray.mpr List.mem_cons_self

end GrammarNetwork
