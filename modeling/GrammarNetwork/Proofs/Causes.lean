import GrammarNetwork.Proofs.Justification
import GrammarNetwork.Proofs.Noticing
import GrammarNetwork.Proofs.Symbols

/-! Causes: whatever is reported of a rule as matching nothing has a block of the rule that does. The lookahead goes
along runs of the network, and a run that leaves a block without a symbol has gone through one of its alternatives
without one. -/

namespace GrammarNetwork

namespace Network

section Lookahead

variable {network : Network} {stop : Option StateId} {start : StateId}

/-- The search notices the empty word here: it is in no call, and where it is to stop or at the end of a rule. -/
def Notices (network : Network) (stop : Option StateId) (probe : Probe) : Prop :=
  probe.stack = [] ∧ (stop = some probe.id ∨ ¬network.IsInner probe.id)

theorem notices_of_look (symbolic : network.IsSymbolic)
    (found : (network.look start stop).contains emptyWord = true) :
    ∃ probe, network.Visits stop start probe ∧ network.Notices stop probe := by
  obtain ⟨⟨called, id, stack⟩, visits, justifies⟩ := backs_of_look found
  refine ⟨_, visits, ?_⟩
  cases justifies with
  | stop last => exact ⟨rfl, Or.inl last⟩
  | ruleEnd found ends =>
      refine ⟨rfl, Or.inr ?_⟩
      rintro ⟨other, same, inner⟩
      rw [found] at same
      cases same
      exact inner ends
  | consumes _ found inner leaves emits =>
      have symbol := (symbolic _ _ found inner _ leaves).of_emits network.isAlphabet_vocabulary emits
      exact absurd symbol (by decide)

/-- The search goes along a run that brings no symbol. -/
theorem Visits.leads {probe : Probe} (visits : network.Visits stop start probe) :
    ∃ word, (∀ letter ∈ word, letter.isEvent = true) ∧
      network.Leads (fun _ => none) ⟨start, []⟩ word ⟨probe.id, probe.stack⟩ := by
  induction visits with
  | refl => exact ⟨[], by simp, .refl _⟩
  | tail _ steps ih =>
      obtain ⟨word, events, leads⟩ := ih
      obtain ⟨more, silent, moves⟩ := steps.moves
      exact ⟨word ++ more, List.forall_mem_append.mpr ⟨events, silent⟩, leads.trans (.of_moves moves)⟩

/-- A piece that the runs from `start` get through with words of the language has a word without symbols, when the
lookahead finds the empty word and ends outside. -/
theorem matchesNothing_of_look (symbolic : network.IsSymbolic) {exit : StateId} {inside : StateId → Prop}
    {language : Language Letter}
    (splits : ∀ final bound, network.Splits (fun _ => none) inside final bound start exit language)
    (outside : ∀ id, id = exit ∨ ¬network.IsInner id → ¬inside id)
    (found : (network.look start (some exit)).contains emptyWord = true) : MatchesNothing language := by
  obtain ⟨probe, visits, top, ended⟩ := notices_of_look symbolic found
  obtain ⟨word, events, steps, runs⟩ := visits.leads
  rw [top] at runs
  have left : ¬inside probe.id := outside probe.id (ended.imp_left fun last => (Option.some.inj last).symm)
  obtain ⟨first, rest, _, rfl, member, _⟩ := splits probe.id steps [] word steps (fun _ => left) (Nat.le_refl _) runs
  exact ⟨first, member, (List.forall_mem_append.mp events).1⟩

end Lookahead

end Network

namespace Network.Lays

variable {network : Network} {index : Nat} {frame : Frame} {block : Handle × Ways}

/-- The end of a block and the ends of rules are no states of its alternatives, nor its start. -/
theorem outside (lays : network.Lays index frame block) :
    ∀ id, id = block.1.right ∨ ¬network.IsInner id → ¬(id = block.1.left ∨ id ∈ block.2.ids) := by
  have inner := isInner_of_holds lays.holds block.2.isInner_layout
  rw [Ways.ids_layout] at inner
  rintro id (rfl | ended) (same | listed)
  · exact lays.distinct same.symm
  · exact lays.apart listed
  · exact ended ⟨_, same ▸ lays.opens, by simp [Frame.startState]⟩
  · exact ended (inner id listed)

end Network.Lays

theorem Frame.startTargets_of_isLoop {frame : Frame} (loop : frame.repeats Repetition.isLoop = true) (exit : StateId)
    (entries : List StateId) : frame.startTargets exit entries = entries := by
  cases frame with
  | plain | optional => cases loop
  | star | plus => rfl

namespace Plan.Makes

variable {plan : Plan} {network : Network} {others : Heap} {parts : List RulePart} {index : Nat} {frame : Frame}
  {block : Handle × Ways} {written : Block}

theorem splits_block (makes : plan.Makes network others parts) (lays : network.Lays index frame block)
    {target : StateId} (entered : target ∈ block.2.entries block.1.right) (final : StateId) (bound : Nat) :
    network.Splits (fun _ => none) (fun id => id = block.1.left ∨ id ∈ block.2.ids) final bound target block.1.right
      (block.2.words network.vocabulary (plan.plainLanguage network.vocabulary) .blank) := by
  have callees : network.SplitsCalls (fun _ => none) final bound (plan.plainLanguage network.vocabulary) :=
    makes.houses.splitsCalls (fun index part found => (makes.words_body_language found network.vocabulary).le) bound
  exact Network.splits_ways makes.houses callees block.2 lays.callsBelow lays.holds (fun _ => Or.inr) target entered

/-- A block that the lookahead finds has an alternative that derives nothing. -/
theorem derives_of_look (makes : plan.Makes network others parts) (lays : network.Lays index frame block)
    (stands : plan.StandsFor index written block) {start : StateId}
    (splits : ∀ final bound, network.Splits (fun _ => none) (fun id => id = block.1.left ∨ id ∈ block.2.ids) final
      bound start block.1.right (block.2.words network.vocabulary (plan.plainLanguage network.vocabulary) .blank))
    (found : (network.look start (some block.1.right)).contains emptyWord = true) :
    plan.DerivesNothing network index written := by
  have empty := Network.matchesNothing_of_look makes.isSymbolic splits lays.outside found
  rwa [stands] at empty

theorem derives_of_loop (makes : plan.Makes network others parts) (loop : frame.repeats Repetition.isLoop = true)
    (lays : network.Lays index frame block) (stands : plan.StandsFor index written block)
    (finds : network.finds Network.look (loopSpot block) = true) : plan.DerivesNothing network index written := by
  obtain ⟨start, listed, found⟩ := List.any_eq_true.mp finds
  obtain rfl := List.mem_singleton.mp listed
  refine makes.derives_of_look lays stands (fun final bound => ?_) found
  refine .silent (Or.inl rfl) lays.opens (by simp [Frame.startState]) rfl fun target entered less _ => ?_
  rw [Frame.startTargets_of_isLoop loop] at entered
  exact makes.splits_block lays entered final less

theorem derives_of_optional (makes : plan.Makes network others parts) (lays : network.Lays index frame block)
    (stands : plan.StandsFor index written block)
    (finds : network.finds Network.look (optionalSpot block) = true) : plan.DerivesNothing network index written := by
  obtain ⟨start, entered, found⟩ := List.any_eq_true.mp finds
  exact makes.derives_of_look lays stands (makes.splits_block lays entered) found

end Plan.Makes

/-- Each of the reports has a cause of its own among the blocks, which has an alternative that derives nothing. -/
def Plan.Caused (plan : Plan) (network : Network) (index : Nat) (blocks : List Block) (reports : List Diagnostic)
    (finding : Diagnostic) : Prop :=
  ∃ causes : List Block, causes.Sublist blocks ∧ (∀ block ∈ causes, plan.DerivesNothing network index block) ∧
    reports = causes.map fun _ => finding

/-- What is found among the second things comes from as many of the first, which have the property. -/
theorem exists_sublist_of_forall₂ {α β : Type} {property : α → Prop} {finds : β → Bool} {first : List α}
    {second : List β} (related : List.Forall₂ (fun one other => finds other = true → property one) first second) :
    ∃ chosen : List α, chosen.Sublist first ∧ (∀ one ∈ chosen, property one) ∧
      chosen.length = (second.filter finds).length := by
  induction related with
  | nil => exact ⟨[], .slnil, by simp, rfl⟩
  | @cons one other first second here _ ih =>
      obtain ⟨chosen, sublist, all, same⟩ := ih
      cases found : finds other with
      | false => exact ⟨chosen, sublist.cons one, all, by simpa [found] using same⟩
      | true =>
          refine ⟨one :: chosen, sublist.cons_cons one, List.forall_mem_cons.mpr ⟨here found, all⟩, ?_⟩
          simpa [found] using same

theorem Plan.Reports.caused {plan : Plan} {network : Network} {rule : Rule} {which : Repetition → Bool} {index : Nat}
    {spot : Handle × Ways → Spot} {reports : List Diagnostic} {finding : Diagnostic}
    (reported : plan.Reports network index rule which spot (fun block spot =>
      network.finds plan.lookahead spot = true → plan.DerivesNothing network index block) reports finding) :
    plan.Caused network index (rule.blocks.filter (Block.repeats which)) reports finding := by
  obtain ⟨found, _, related, rfl⟩ := reported
  have spots : List.Forall₂ (fun block spot => network.finds plan.lookahead spot = true →
      plan.DerivesNothing network index block) (rule.blocks.filter (Block.repeats which)) (found.map spot) :=
    List.forall₂_map_right_iff.mpr (related.imp fun _ _ answered => answered.2)
  obtain ⟨causes, sublist, all, same⟩ := exists_sublist_of_forall₂ spots
  exact ⟨causes, sublist, all, by simp [same]⟩

theorem Plan.findings_named {plan : Plan} {network : Network} {parts : List RulePart} :
    ∀ diagnostic ∈ plan.findings network parts, ∃ rule ∈ plan.grammar.rules, diagnostic.arguments = [rule.name] := by
  intro diagnostic member
  have named : ∃ (check : Check) (rule : Rule), plan.grammar.rules[check.rule]? = some rule ∧
      diagnostic.arguments = [rule.name] := by
    rcases List.mem_append.mp member with loops | optionals
    · obtain ⟨check, _, inside⟩ := List.mem_flatMap.mp loops
      exact ⟨check, loopFindings_named diagnostic inside⟩
    · split at optionals
      · obtain ⟨check, _, inside⟩ := List.mem_flatMap.mp optionals
        exact ⟨check, optionalFindings_named diagnostic inside⟩
      · cases optionals
  obtain ⟨check, rule, found, arguments⟩ := named
  exact ⟨rule, Array.mem_of_getElem? found, arguments⟩

/-- There is no report without a cause: what is reported of a rule because its loops can match nothing comes from as
many loops of the rule with an alternative that derives nothing, and what is reported because of its optional blocks
comes from as many of these with such an alternative. -/
theorem Draft.run_reports (draft : Draft) (kind : GrammarKind) (templates : Templates) (journal : Journal) :
    match draft.build with
    | .error _ => True
    | .ok grammar =>
        let plan : Plan := { grammar, kind, templates }
        match plan.run journal with
        | .error _ _ => True
        | .ok network after => ∃ reported, after.journal.closing = journal.closing ++ reported ∧
            (∀ diagnostic ∈ reported, ∃ rule ∈ grammar.rules, diagnostic.arguments = [rule.name]) ∧
            ∀ (index : Nat) (rule : Rule), grammar.rules[index]? = some rule →
              plan.Caused network index (rule.blocks.filter (Block.repeats Repetition.isLoop))
                (reportsOn rule Problem.isEmptyLoop reported)
                (plan.finding rule (if rule.leftRecursive then .emptyLeftRecursion else .emptyLoop)) ∧
              plan.Caused network index (rule.blocks.filter (Block.repeats (· = .optional)))
                (reportsOn rule (· = .emptyOptional) reported) (plan.finding rule .emptyOptional) := by
  split
  · trivial
  rename_i grammar built
  intro plan
  split
  · trivial
  rename_i network after ends
  obtain ⟨others, parts, makes, closing, _⟩ := Plan.completes_of_run ends
  have checked := Draft.checked_of_build built
  refine ⟨_, closing, Plan.findings_named, fun index rule listed => ⟨?_, ?_⟩⟩
  · exact (makes.reports_loops checked listed fun _ _ _ => makes.derives_of_loop).caused
  · cases kind with
    | parser => exact (makes.reports_optionals checked listed rfl fun _ _ _ _ => makes.derives_of_optional).caused
    | lexer => exact ⟨[], List.nil_sublist _, by simp, reportsOn_findings_optionals⟩

-- `a : b* c? ; b : X | ; c : {..} Y ;`: the loop is reported, and the optional block, where the action is followed by
-- a token, is not.
set_option maxRecDepth 100000 in
example : (Draft.network? {
      kind := .parser
      name := "P"
      rules := [
        { name := "a"
          alternatives := [{ elements := [
            ⟨.block { alternatives := [{ elements := [⟨.rule "b" none, none⟩] }], suffix := some ⟨.star, true⟩ }, none⟩,
            ⟨.block { alternatives := [{ elements := [⟨.rule "c" none, none⟩] }]
                      suffix := some ⟨.optional, true⟩ }, none⟩] }] },
        { name := "b", alternatives := [{ elements := [⟨.token "X", none⟩] }, { elements := [] }] },
        { name := "c", alternatives := [{ elements := [⟨.action "" none, none⟩, ⟨.token "Y", none⟩] }] }] }).map
    (fun built => built.2.2.diagnostics.map fun diagnostic => (diagnostic.problem, diagnostic.arguments)) =
    some [(.emptyLoop, ["a"])] := by
  decide +kernel

end GrammarNetwork
