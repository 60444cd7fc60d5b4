import GrammarNetwork.Construction.Element

/-! Complete networks: all rules, what links them, and the checks for loops and optional blocks that can
match nothing. -/

namespace GrammarNetwork

namespace Build

/-- The start and the end of a rule, before its body. -/
def newRule (written : Rule) (index : Nat) : Build Unit := do
  let start := (← network).nextId
  let kind : StateKind := .ruleStart (start + 1) written.leftRecursive
  discard (newStateIn (some index) kind)
  let stop ← newStateIn (some index) .ruleStop
  modifyNetwork fun network =>
    { network with
      ruleStarts := network.ruleStarts.push start
      ruleStops := network.ruleStops.push stop }

def newRules (plan : Plan) : Build Unit :=
  plan.grammar.rules.toList.zipIdx.forM fun entry => newRule entry.1 entry.2

end Build

/-- The call that a state makes, if that is all it does: the rule that is called and the state where the call
returns to. -/
def State.call? (state : State) : Option (Nat × StateId) :=
  match state.kind, state.transitions with
  | .basic, [⟨_, .call rule _ follow⟩] => some (rule, follow)
  | _, _ => none

/-- The calls of a network in the order of the states that make them. -/
def Network.calls (network : Network) : List (Nat × StateId) :=
  network.liveStates.filterMap fun entry => entry.2.call?

namespace Build

/-- Leads from the end of a rule back to where a call of it goes on. -/
def addFollowLink (call : Nat × StateId) : Build Unit := do
  match (← network).ruleStops[call.1]? with
  | some stop => epsilon stop call.2
  | none => pure ()

/-- Links the ends of rules to the calls. Gives the number of calls. -/
def addFollowLinks : Build Nat := do
  let calls := (← network).calls
  calls.forM addFollowLink
  return calls.length

/-- Lets the end of a rule that is never called match the end of the input. Gives how many rules were
entries up to this one. -/
def addEntryEnd (sink : StateId) (entries : Nat) (stop : StateId) : Build Nat := do
  if (← state stop).transitions.isEmpty then do
    addTransition stop ⟨sink, .atom endOfInput⟩
    return entries + 1
  else
    return entries

/-- Gives the rules that are never called a way to the end of the input, and counts them. -/
def addEntryEnds : Build Nat := do
  let sink ← newStateIn none .basic
  (← network).ruleStops.toList.foldlM (addEntryEnd sink) 0

/-- Reports a loop whose body can match nothing, or the end of the input. -/
def checkLoop (plan : Plan) (check : Check) : Build Unit := do
  let look := plan.lookahead (← network) check.start (some check.exit)
  match plan.grammar.rules[check.rule]? with
  | none => pure ()
  | some rule => do
      if look.contains emptyWord then
        report plan (if rule.leftRecursive then .emptyLeftRecursion else .emptyLoop) rule.position
          [rule.name]
      if look.contains endOfInput then
        report plan .endOfInputLoop rule.position [rule.name]

/-- Checks the loops found so far, which are then done with. -/
def checkLoops (plan : Plan) : Build Unit := do
  let checks := (← get).loopChecks
  modify fun construction => { construction with loopChecks := #[] }
  checks.toList.forM (checkLoop plan)

/-- What the ways into an optional block come to. -/
inductive OptionalFinding where
  /-- One of them can match nothing. -/
  | empty
  /-- None can, and this many lead past the block. -/
  | bypasses (count : Nat)

/-- Looks at the ways into an optional block that ends at `exit`. -/
def optionalFinding (lookahead : StateId → IntervalSet) (exit : StateId) :
    (bypasses : Nat) → List StateId → OptionalFinding
  | bypasses, [] => .bypasses bypasses
  | bypasses, target :: rest =>
      if target = exit then optionalFinding lookahead exit (bypasses + 1) rest
      else if (lookahead target).contains emptyWord then .empty
      else optionalFinding lookahead exit bypasses rest

/-- Reports an optional block with an alternative that can match nothing. There is one way past a block. -/
def checkOptional (plan : Plan) (check : Check) : Build Unit := do
  let start ← state check.start
  let network ← network
  let lookahead (target : StateId) : IntervalSet := plan.lookahead network target (some check.exit)
  match optionalFinding lookahead check.exit 0 (start.transitions.map Transition.target) with
  | .empty =>
      match plan.grammar.rules[check.rule]? with
      | some rule => report plan .emptyOptional rule.position [rule.name]
      | none => pure ()
  | .bypasses count =>
      if count = 1 then pure () else fail plan (.bypassCount check.start count)

/-- Checks the optional blocks found so far, which are then done with. -/
def checkOptionals (plan : Plan) : Build Unit := do
  let checks := (← get).optionalChecks
  modify fun construction => { construction with optionalChecks := #[] }
  checks.toList.forM (checkOptional plan)

/-- The network of a parser. -/
def parserNetwork (plan : Plan) : Build Network := do
  newRules plan
  rules plan
  let links ← addFollowLinks
  let entries ← addEntryEnds
  let construction ← get
  note (.parserFinished plan.grammar.name construction.network.stateCount links entries
    construction.loopChecks.size construction.optionalChecks.size)
  checkLoops plan
  checkOptionals plan
  network

/-- The entry of a mode. -/
def newMode (mode : String) : Build Unit := do
  let start ← newStateIn none .tokensStart
  modifyNetwork fun network => { network with modeStarts := network.modeStarts.push start }
  let decision ← defineDecision start
  note (.modeStarted mode start decision)

/-- Leads from the entry of the mode with this index to the rules of that mode that are no fragments. -/
def linkMode (plan : Plan) (mode : String) (index : Nat) : Build Unit := do
  match (← network).modeStarts[index]? with
  | none => pure ()
  | some start =>
      (plan.grammar.modeRules mode).forM fun entry => do
        if !entry.1.isFragment then
          match (← network).ruleStarts[entry.2]? with
          | some ruleStart => epsilon start ruleStart
          | none => pure ()

/-- The network of a lexer. -/
def lexerNetwork (plan : Plan) : Build Network := do
  plan.grammar.modes.forM newMode
  let types := plan.grammar.rules.toList.map fun rule => plan.grammar.tokenType rule.name
  modifyNetwork fun network => { network with ruleTokenTypes := types }
  newRules plan
  rules plan
  let actions := (← get).actions
  note (.actionsCollected plan.grammar.name actions.size)
  modifyNetwork fun network => { network with lexerActions := actions }
  plan.grammar.modes.zipIdx.forM fun entry => linkMode plan entry.1 entry.2
  note (.lexerFinished plan.grammar.name (← network).stateCount plan.grammar.modes.length)
  checkLoops plan
  network

/-- The network of the grammar. -/
def complete (plan : Plan) : Build Network :=
  match plan.kind with
  | .lexer => lexerNetwork plan
  | .parser => parserNetwork plan

end Build

/-- The journal entry for a grammar that has been built. -/
def Grammar.note (grammar : Grammar) : Note :=
  .grammarBuilt grammar.kind grammar.name grammar.rules.size grammar.tokens.length

/-- Builds the network of a plan. The construction holds what there was before and what was done. -/
def Plan.run (plan : Plan) (journal : Journal) : EStateM.Result Failure Construction Network :=
  (Build.complete plan).run (plan.start journal)

end GrammarNetwork
