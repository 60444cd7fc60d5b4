import GrammarNetwork.Proofs.Failures
import GrammarNetwork.Proofs.Layouts

/-! Findings: what is reported of a rule whose blocks are found to match nothing. There is one report for each of its
blocks where the lookahead finds a way past what is repeated. -/

namespace GrammarNetwork

/-- Where the lookahead looks: from one of these states to the end of a block. -/
structure Spot where
  starts : List StateId
  exit : StateId

/-- The lookahead finds a way without symbols. -/
def Network.finds (network : Network) (lookahead : Lookahead) (spot : Spot) : Bool :=
  spot.starts.any fun start => (lookahead network start (some spot.exit)).contains emptyWord

/-- A loop is looked at from where all its alternatives begin. -/
def loopSpot (block : Handle × Ways) : Spot :=
  ⟨[block.1.left], block.1.right⟩

/-- The alternatives of an optional block are looked at one by one. -/
def optionalSpot (block : Handle × Ways) : Spot :=
  ⟨block.2.entries block.1.right, block.1.right⟩

def Problem.isEmptyLoop : Problem → Bool
  | .emptyLoop | .emptyLeftRecursion => true
  | _ => false

/-- The reports of such problems that name the rule. -/
def reportsOn (rule : Rule) (which : Problem → Bool) (diagnostics : List Diagnostic) : List Diagnostic :=
  diagnostics.filter fun diagnostic => which diagnostic.problem && diagnostic.arguments = [rule.name]

/-- A report that names the rule. -/
def Plan.finding (plan : Plan) (rule : Rule) (problem : Problem) : Diagnostic where
  problem
  file := plan.grammar.fileName
  position := rule.position
  arguments := [rule.name]

theorem reportsOn_flatMap {α : Type} (rule : Rule) (which : Problem → Bool) (items : List α)
    (reports : α → List Diagnostic) :
    reportsOn rule which (items.flatMap reports) = items.flatMap fun item => reportsOn rule which (reports item) :=
  List.filter_flatMap ..

theorem Trail.rule_checks {kind : Frame → Bool} {index : Nat} {trail : Trail} {check : Check}
    (listed : check ∈ trail.checks kind index) : check.rule = index := by
  obtain ⟨_, _, rfl⟩ := List.mem_map.mp listed
  rfl

theorem RulePart.checks_filter (kind : Frame → Bool) {part : RulePart} :
    ∀ {parts : List RulePart} (first : Nat) {number : Nat}, parts[number]? = some part →
    (RulePart.checks kind first parts).filter (fun check => check.rule = first + number) =
      part.body.checks kind (first + number)
  | other :: parts, first, 0, found => by
      obtain rfl : other = part := by simpa using found
      have here : (other.body.checks kind first).filter (fun check => check.rule = first) =
          other.body.checks kind first :=
        List.filter_eq_self.mpr fun check listed => by simp [Trail.rule_checks listed]
      have later : (RulePart.checks kind (first + 1) parts).filter (fun check => check.rule = first) = [] := by
        refine List.filter_eq_nil_iff.mpr fun check listed => ?_
        obtain ⟨index, _, _, inside⟩ := RulePart.mem_checks.mp listed
        have rule := Trail.rule_checks inside
        simp only [decide_eq_true_eq]
        omega
      rw [RulePart.checks, List.filter_append, Nat.add_zero, here, later, List.append_nil]
  | other :: parts, first, number + 1, found => by
      have here : (other.body.checks kind first).filter (fun check => check.rule = first + (number + 1)) = [] := by
        refine List.filter_eq_nil_iff.mpr fun check listed => ?_
        have rule := Trail.rule_checks listed
        simp only [decide_eq_true_eq]
        omega
      have later := checks_filter kind (first + 1) (List.getElem?_cons_succ.symm.trans found)
      rw [RulePart.checks, List.filter_append, here, List.nil_append]
      rwa [Nat.add_assoc, Nat.add_comm 1] at later

section Reports

variable {plan : Plan} {network : Network} {rule : Rule} {index : Nat}

/-- A check of another rule reports nothing on this one. -/
theorem reportsOn_other (checked : plan.grammar.Checked) (listed : plan.grammar.rules[index]? = some rule)
    {check : Check} (other : check.rule ≠ index) {which : Problem → Bool} {diagnostics : List Diagnostic}
    (names : ∀ diagnostic ∈ diagnostics, ∃ named, plan.grammar.rules[check.rule]? = some named ∧
      diagnostic.arguments = [named.name]) : reportsOn rule which diagnostics = [] := by
  refine List.filter_eq_nil_iff.mpr fun diagnostic member => ?_
  obtain ⟨named, found, arguments⟩ := names diagnostic member
  rw [arguments]
  intro same
  have equal : named.name = rule.name := by simp_all
  have index₁ := (checked.ruleIndex?_eq found).mpr equal
  have index₂ := (checked.ruleIndex?_eq listed).mpr rfl
  exact other (Option.some.inj (index₁.symm.trans index₂))

theorem loopFindings_named {check : Check} : ∀ diagnostic ∈ plan.loopFindings network check, ∃ named,
    plan.grammar.rules[check.rule]? = some named ∧ diagnostic.arguments = [named.name] := by
  intro diagnostic member
  unfold Plan.loopFindings at member
  split at member
  · cases member
  · rename_i named found
    refine ⟨named, found, ?_⟩
    simp only [List.mem_append] at member
    rcases member with first | second
    · split at first
      · rw [List.mem_singleton.mp first]
      · cases first
    · split at second
      · rw [List.mem_singleton.mp second]
      · cases second

theorem optionalFindings_named {check : Check} : ∀ diagnostic ∈ plan.optionalFindings network check, ∃ named,
    plan.grammar.rules[check.rule]? = some named ∧ diagnostic.arguments = [named.name] := by
  intro diagnostic member
  unfold Plan.optionalFindings at member
  split at member
  · rename_i named start found _
    simp only at member
    split at member
    · exact ⟨named, found, by rw [List.mem_singleton.mp member]⟩
    · cases member
  · cases member

theorem reportsOn_checks {parts : List RulePart} (checked : plan.grammar.Checked)
    (listed : plan.grammar.rules[index]? = some rule) {part : RulePart} (found : parts[index]? = some part)
    {which : Problem → Bool} {kind : Frame → Bool} {findings : Check → List Diagnostic}
    (named : ∀ check, ∀ diagnostic ∈ findings check, ∃ named, plan.grammar.rules[check.rule]? = some named ∧
      diagnostic.arguments = [named.name]) :
    reportsOn rule which ((RulePart.checks kind 0 parts).flatMap findings) =
      (part.body.checks kind index).flatMap fun check => reportsOn rule which (findings check) := by
  have own := RulePart.checks_filter kind 0 found
  rw [Nat.zero_add] at own
  rw [reportsOn_flatMap, ← own]
  induction RulePart.checks kind 0 parts with
  | nil => rfl
  | cons check rest ih =>
      rw [List.flatMap_cons, ih, List.filter_cons]
      split
      · rfl
      · rename_i other
        rw [reportsOn_other checked listed (by simpa using other) (named check), List.nil_append]

/-- There is a report on a loop where the lookahead finds a way through its body. -/
theorem reportsOn_loop (listed : plan.grammar.rules[index]? = some rule) (block : Handle × Ways) :
    reportsOn rule Problem.isEmptyLoop (plan.loopFindings network ⟨index, block.1.left, block.1.right⟩) =
      if network.finds plan.lookahead (loopSpot block) then
        [plan.finding rule (if rule.leftRecursive then .emptyLeftRecursion else .emptyLoop)] else [] := by
  simp only [Plan.loopFindings, listed, reportsOn, List.filter_append, Network.finds, loopSpot, List.any_cons,
    List.any_nil, Bool.or_false, Plan.finding]
  cases (plan.lookahead network block.1.left (some block.1.right)).contains emptyWord <;>
    cases (plan.lookahead network block.1.left (some block.1.right)).contains endOfInput <;>
      cases rule.leftRecursive <;> simp [Problem.isEmptyLoop]

/-- The ways into an optional block are looked at until one is found to match nothing. -/
theorem Build.optionalFinding_empty {lookahead : StateId → IntervalSet} {exit : StateId} :
    ∀ {targets : List StateId} {bypasses : Nat}, Build.optionalFinding lookahead exit bypasses targets = .empty ↔
      ∃ target ∈ targets, target ≠ exit ∧ (lookahead target).contains emptyWord = true
  | [], bypasses => by simp [Build.optionalFinding]
  | target :: rest, bypasses => by
      rw [Build.optionalFinding, List.exists_mem_cons_iff]
      split
      · rename_i past
        rw [optionalFinding_empty]
        simp [past]
      · rename_i inside
        split
        · rename_i empty
          simp [inside, empty]
        · rename_i full
          rw [optionalFinding_empty]
          simp [full]

/-- There is a report on an optional block where the lookahead finds a way through one of its alternatives. -/
theorem reportsOn_optional (listed : plan.grammar.rules[index]? = some rule) {block : Handle × Ways} {frame : Frame}
    (optional : frame.isOptional = true) (lays : network.Lays index frame block) :
    reportsOn rule (· = .emptyOptional) (plan.optionalFindings network ⟨index, block.1.left, block.1.right⟩) =
      if network.finds plan.lookahead (optionalSpot block) then [plan.finding rule .emptyOptional] else [] := by
  have targets : ∀ target, target ∈ frame.startTargets block.1.right (block.2.entries block.1.right) ∧
      target ≠ block.1.right ↔ target ∈ block.2.entries block.1.right := by
    intro target
    have other : target ∈ block.2.entries block.1.right → target ≠ block.1.right :=
      fun entered same => lays.exit_not_mem (same ▸ entered)
    cases frame with
    | optional decision greedy =>
        cases greedy <;> simp only [Frame.startTargets, Bool.false_eq_true, if_true, if_false, List.mem_append,
          List.mem_cons, List.not_mem_nil, or_false] <;> tauto
    | _ => cases optional
  have whole : (Build.optionalFinding (fun target => plan.lookahead network target (some block.1.right)) block.1.right
      0 (frame.startTargets block.1.right (block.2.entries block.1.right)) = .empty) ↔
        network.finds plan.lookahead (optionalSpot block) = true := by
    rw [Build.optionalFinding_empty, Network.finds, List.any_eq_true]
    refine exists_congr fun target => ?_
    rw [← and_assoc, targets target]
    rfl
  have same : (frame.startState (some index) block.1.right (block.2.entries block.1.right)).transitions.map
      Transition.target = frame.startTargets block.1.right (block.2.entries block.1.right) := by
    simp [Frame.startState, Function.comp_def]
  simp only [Plan.optionalFindings, listed, lays.opens, same]
  split
  · rename_i empty
    rw [if_pos (whole.mp empty)]
    simp [reportsOn, Plan.finding]
  · rename_i count full
    rw [if_neg fun finds => ?_]
    · rfl
    · rw [whole.mpr finds] at full
      cases full

end Reports

theorem reportsOn_append (rule : Rule) (which : Problem → Bool) (first second : List Diagnostic) :
    reportsOn rule which (first ++ second) = reportsOn rule which first ++ reportsOn rule which second :=
  List.filter_append ..

theorem optionalFindings_problem {plan : Plan} {network : Network} {check : Check} :
    ∀ diagnostic ∈ plan.optionalFindings network check, diagnostic.problem = .emptyOptional := by
  intro diagnostic member
  unfold Plan.optionalFindings at member
  split at member
  · simp only at member
    split at member
    · rw [List.mem_singleton.mp member]
    · cases member
  · cases member

theorem loopFindings_problem {plan : Plan} {network : Network} {check : Check} :
    ∀ diagnostic ∈ plan.loopFindings network check, diagnostic.problem ≠ .emptyOptional := by
  intro diagnostic member
  unfold Plan.loopFindings at member
  split at member
  · cases member
  · rename_i rule _
    simp only [List.mem_append] at member
    rcases member with first | second
    · split at first
      · rw [List.mem_singleton.mp first]
        cases rule.leftRecursive <;> simp
      · cases first
    · split at second
      · rw [List.mem_singleton.mp second]
        simp
      · cases second

section Findings

variable {plan : Plan} {network : Network} {parts : List RulePart} {rule : Rule}

/-- What is found in loops is reported first. -/
theorem reportsOn_findings_loops : reportsOn rule Problem.isEmptyLoop (plan.findings network parts) =
    reportsOn rule Problem.isEmptyLoop
      ((RulePart.checks Frame.isLoop 0 parts).flatMap (plan.loopFindings network)) := by
  rw [Plan.findings, reportsOn_append]
  refine List.append_right_eq_self.mpr (List.filter_eq_nil_iff.mpr fun diagnostic member => ?_)
  have kind : diagnostic.problem = .emptyOptional := by
    split at member
    · obtain ⟨check, _, inside⟩ := List.mem_flatMap.mp member
      exact optionalFindings_problem diagnostic inside
    · cases member
  simp [kind, Problem.isEmptyLoop]

/-- What is found in optional blocks is reported next, and only a parser is searched for it. -/
theorem reportsOn_findings_optionals : reportsOn rule (· = .emptyOptional) (plan.findings network parts) =
    if plan.kind = .parser then reportsOn rule (· = .emptyOptional)
      ((RulePart.checks Frame.isOptional 0 parts).flatMap (plan.optionalFindings network)) else [] := by
  have loops : reportsOn rule (· = .emptyOptional)
      ((RulePart.checks Frame.isLoop 0 parts).flatMap (plan.loopFindings network)) = [] := by
    refine List.filter_eq_nil_iff.mpr fun diagnostic member => ?_
    obtain ⟨check, _, inside⟩ := List.mem_flatMap.mp member
    simp [loopFindings_problem diagnostic inside]
  rw [Plan.findings, reportsOn_append, loops, List.nil_append]
  cases plan.kind <;> rfl

end Findings

theorem spots_flatMap (spot : Handle × Ways → Spot) (finds : Spot → Bool) (finding : Diagnostic)
    (blocks : List (Handle × Ways)) :
    (blocks.flatMap fun block => if finds (spot block) then [finding] else []) =
      ((blocks.map spot).filter finds).map fun _ => finding := by
  induction blocks with
  | nil => rfl
  | cons block blocks ih =>
      rw [List.flatMap_cons, ih, List.map_cons, List.filter_cons]
      split <;> rfl

/-- The block of the network has the alternatives of the block of the grammar. -/
def Plan.StandsFor (plan : Plan) (index : Nat) (block : Block) (found : Handle × Ways) : Prop :=
  ∀ vocabulary meanings,
    found.2.words vocabulary meanings .blank = plan.plainWords vocabulary meanings index block.alternatives

/-- The reports on the rule with number `index`: the lookahead is asked at the spot of each of its blocks in the
network, and one finding is reported where it finds a way. -/
def Plan.Reports (plan : Plan) (network : Network) (index : Nat) (rule : Rule) (which : Repetition → Bool)
    (spot : Handle × Ways → Spot) (answers : Block → Spot → Prop) (reports : List Diagnostic) (finding : Diagnostic) :
    Prop :=
  ∃ found, network.LaidOut index which found ∧
    List.Forall₂ (fun written block => plan.StandsFor index written block ∧ answers written (spot block))
      (rule.blocks.filter (Block.repeats which)) found ∧
    reports = ((found.map spot).filter (network.finds plan.lookahead)).map fun _ => finding

namespace Plan.Makes

variable {plan : Plan} {network : Network} {others : Heap} {parts : List RulePart} {index : Nat} {rule : Rule}
  {part : RulePart}

theorem standsFor (makes : plan.Makes network others parts) (listed : plan.grammar.rules[index]? = some rule)
    (found : parts[index]? = some part) (which : Repetition → Bool) :
    List.Forall₂ (plan.StandsFor index) (rule.blocks.filter (Block.repeats which))
      (part.body.blocks (Frame.repeats which)) := by
  obtain ⟨written, known, draws⟩ := makes.draws_part found
  obtain rfl : written = rule := Option.some.inj (known.symm.trans listed)
  have same : ∀ vocabulary meanings, part.body.bodies which vocabulary meanings =
      plan.bodies which vocabulary meanings index written.blocks := by
    intro vocabulary meanings
    rw [← Trail.bodies_erase]
    exact bodies_sketchBody draws.body
  refine List.forall₂_iff_get.mpr ⟨?_, fun place inside within vocabulary meanings => ?_⟩
  · simpa [Trail.bodies, Plan.bodies] using (congrArg List.length (same .empty fun _ => 0)).symm
  · have here := congrArg (fun bodies => bodies[place]?) (same vocabulary meanings)
    simpa [Trail.bodies, Plan.bodies, List.getElem?_map, List.getElem?_eq_getElem inside,
      List.getElem?_eq_getElem within] using here

theorem lays (makes : plan.Makes network others parts) (found : parts[index]? = some part) {kind : Frame → Bool}
    {block : Handle × Ways} (listed : block ∈ part.body.blocks kind) :
    ∃ frame, kind frame = true ∧ network.Lays index frame block :=
  makes.houses.lays found (RulePart.filled_of_draws makes.draws part (List.mem_of_getElem? found)) listed

/-- Each loop of a rule where the lookahead finds a way is reported once. -/
theorem loopReports (checked : plan.grammar.Checked) (listed : plan.grammar.rules[index]? = some rule)
    (found : parts[index]? = some part) :
    reportsOn rule Problem.isEmptyLoop (plan.findings network parts) =
      (((part.body.blocks Frame.isLoop).map loopSpot).filter (network.finds plan.lookahead)).map fun _ =>
        plan.finding rule (if rule.leftRecursive then .emptyLeftRecursion else .emptyLoop) := by
  rw [reportsOn_findings_loops, reportsOn_checks checked listed found fun _ => loopFindings_named, Trail.checks,
    List.flatMap_map]
  simp only [reportsOn_loop listed]
  exact spots_flatMap loopSpot _ _ _

/-- Each optional block of a parser rule where the lookahead finds a way is reported once. -/
theorem optionalReports (makes : plan.Makes network others parts) (checked : plan.grammar.Checked)
    (listed : plan.grammar.rules[index]? = some rule) (found : parts[index]? = some part)
    (parser : plan.kind = .parser) :
    reportsOn rule (· = .emptyOptional) (plan.findings network parts) =
      (((part.body.blocks Frame.isOptional).map optionalSpot).filter (network.finds plan.lookahead)).map fun _ =>
        plan.finding rule .emptyOptional := by
  rw [reportsOn_findings_optionals, if_pos parser,
    reportsOn_checks checked listed found fun _ => optionalFindings_named, Trail.checks, List.flatMap_map,
    ← spots_flatMap]
  refine List.flatMap_congr fun block member => ?_
  obtain ⟨frame, optional, lays⟩ := makes.lays found member
  exact reportsOn_optional listed optional lays

/-- What holds at each block of the network that stands for one of the grammar holds for the blocks of the rule. -/
theorem forall₂_blocks (makes : plan.Makes network others parts) (listed : plan.grammar.rules[index]? = some rule)
    (found : parts[index]? = some part) {which : Repetition → Bool} {answers : Block → Handle × Ways → Prop}
    (each : ∀ frame written block, frame.repeats which = true →
      network.Lays index frame block → plan.StandsFor index written block → answers written block) :
    List.Forall₂ (fun written block => plan.StandsFor index written block ∧ answers written block)
      (rule.blocks.filter (Block.repeats which)) (part.body.blocks (Frame.repeats which)) := by
  have both := (List.forall₂_and_left ..).mpr ⟨fun block => makes.lays found, (makes.standsFor listed found which).flip⟩
  refine both.flip.imp ?_
  rintro written block ⟨⟨frame, repeated, lays⟩, stands⟩
  exact ⟨stands, each frame written block repeated lays stands⟩

theorem laidOut (makes : plan.Makes network others parts) (found : parts[index]? = some part)
    (which : Repetition → Bool) : network.LaidOut index which (part.body.blocks (Frame.repeats which)) :=
  makes.houses.laidOut (RulePart.filled_of_draws makes.draws) found which

theorem reports_loops (makes : plan.Makes network others parts) (checked : plan.grammar.Checked)
    (listed : plan.grammar.rules[index]? = some rule) {answers : Block → Spot → Prop}
    (each : ∀ frame written block, frame.repeats Repetition.isLoop = true → network.Lays index frame block →
      plan.StandsFor index written block → answers written (loopSpot block)) :
    plan.Reports network index rule Repetition.isLoop loopSpot answers
      (reportsOn rule Problem.isEmptyLoop (plan.findings network parts))
      (plan.finding rule (if rule.leftRecursive then .emptyLeftRecursion else .emptyLoop)) := by
  obtain ⟨part, found, _⟩ := makes.part_of_rule listed
  refine ⟨_, makes.laidOut found _, makes.forall₂_blocks listed found each, ?_⟩
  rw [loopReports checked listed found, Frame.isLoop_eq_repeats]

theorem reports_optionals (makes : plan.Makes network others parts) (checked : plan.grammar.Checked)
    (listed : plan.grammar.rules[index]? = some rule) (parser : plan.kind = .parser) {answers : Block → Spot → Prop}
    (each : ∀ frame written block, frame.repeats (· = .optional) = true → network.Lays index frame block →
      plan.StandsFor index written block → answers written (optionalSpot block)) :
    plan.Reports network index rule (· = .optional) optionalSpot answers
      (reportsOn rule (· = .emptyOptional) (plan.findings network parts)) (plan.finding rule .emptyOptional) := by
  obtain ⟨part, found, _⟩ := makes.part_of_rule listed
  refine ⟨_, makes.laidOut found _, makes.forall₂_blocks listed found each, ?_⟩
  rw [makes.optionalReports checked listed found parser, Frame.isOptional_eq_repeats]

end Plan.Makes

end GrammarNetwork
