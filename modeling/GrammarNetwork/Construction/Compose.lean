import GrammarNetwork.Construction.Basic
import GrammarNetwork.Network.StateSet

/-! Sequences, blocks and loops out of smaller pieces of a network. States that only pass through are taken
out again. -/

namespace GrammarNetwork

/-- The state with its first transition going on at another state. -/
def State.redirectFirst (target : StateId) (state : State) : State :=
  { state with
    transitions := match state.transitions with
      | first :: rest => first.redirect target :: rest
      | [] => [] }

namespace StateKind

/-- The start of a block with the end that belongs to it. -/
def withExit (exit : StateId) : StateKind → StateKind
  | .blockStart kind _ loopBack => .blockStart kind (some exit) loopBack
  | kind => kind

/-- The start of a block with the state from which a loop goes back to it. -/
def withLoopBack (loopBack : StateId) : StateKind → StateKind
  | .blockStart kind exit _ => .blockStart kind exit (some loopBack)
  | kind => kind

end StateKind

namespace Network

/-- The piece is a single transition between two basic states. -/
def isTrivial (network : Network) (piece : Handle) : Bool :=
  match network.state? piece.left, network.state? piece.right with
  | some left, some right =>
      left.kind == .basic && right.kind == .basic &&
        match left.transitions with
        | [transition] => transition.next == piece.right || transition.target == piece.right
        | _ => false
  | _, _ => false

/-- Makes the first transition of a state go on at another one. -/
def redirectFirst (network : Network) (id target : StateId) : Network :=
  network.modifyState id (State.redirectFirst target)

/-- The only transition of a basic state. -/
def onlyTransition? (network : Network) (id : StateId) : Option Transition :=
  match network.state? id with
  | some state =>
      match state.kind, state.transitions with
      | .basic, [transition] => some transition
      | _, _ => none
  | none => none

def isStarBlockStart (network : Network) (id : StateId) : Bool :=
  match network.state? id with
  | some state =>
      match state.kind with
      | .blockStart .star _ _ => true
      | _ => false
  | none => false

/-- Whether the state is the end of a block that is not the body of a star loop. -/
def endsOtherBlock (network : Network) (id : StateId) : Bool :=
  match network.state? id with
  | some state =>
      match state.kind with
      | .blockEnd start => !(start.any network.isStarBlockStart)
      | _ => false
  | none => false

/-- Takes out the state after `id` if all it does is lead to the end of a block without consuming
anything or running an action. -/
def stripTail (network : Network) (id : StateId) : Network :=
  match network.onlyTransition? id with
  | none => network
  | some transition =>
      match network.onlyTransition? transition.next with
      | none => network
      | some tail =>
          let passes := match tail.label with
            | .action _ _ _ => false
            | label => label.isEpsilon
          if passes && network.endsOtherBlock tail.target then
            (network.redirectFirst id tail.target).removeState transition.next
          else
            network

/-- Whether a state is there and belongs to the rule. -/
def isInRule (network : Network) (rule : Option Nat) (id : StateId) : Bool :=
  match network.state? id with
  | some state => state.rule == rule
  | none => false

/-- The first state of a stack that is still to be visited, and the stack below it. -/
def nextUnvisited (network : Network) (rule : Option Nat) (remaining : StateSet) :
    List StateId → Option (StateId × List StateId)
  | [] => none
  | id :: rest =>
      if remaining.contains id && network.isInRule rule id then some (id, rest)
      else network.nextUnvisited rule remaining rest

theorem contains_of_nextUnvisited {network : Network} {rule : Option Nat} {remaining : StateSet}
    {stack rest : List StateId} {id : StateId}
    (found : network.nextUnvisited rule remaining stack = some (id, rest)) :
    remaining.contains id = true := by
  induction stack with
  | nil => simp [nextUnvisited] at found
  | cons first stack ih =>
      simp only [nextUnvisited] at found
      split at found
      · rename_i fresh
        have same : first = id ∧ stack = rest := by simpa using found
        exact same.1 ▸ (Bool.and_eq_true_iff.mp fresh).1
      · exact ih found

/-- Strips the tails behind the states on the stack and behind those that they lead to inside the rule,
depth first. Each of the `remaining` states is visited at most once. -/
def stripTailsFrom (network : Network) (rule : Option Nat) (remaining : StateSet)
    (stack : List StateId) : Network :=
  match _ : network.nextUnvisited rule remaining stack with
  | none => network
  | some (id, rest) =>
      let stripped := network.stripTail id
      let targets := ((stripped.state? id).map fun state => state.transitions.map Transition.target).getD []
      stripped.stripTailsFrom rule (remaining.erase id) (targets ++ rest)
termination_by remaining.size
decreasing_by
  exact remaining.size_erase_lt id (contains_of_nextUnvisited ‹_›)

/-- Strips the tails of an alternative that starts at `start`. -/
def stripTails (network : Network) (start : StateId) : Network :=
  match network.state? start with
  | some state => network.stripTailsFrom state.rule network.liveSet [start]
  | none => network

end Network

namespace Build

/-- Lets `next` follow `piece`. The end of a single transition is not needed for that. -/
def join (piece next : Handle) : Build Unit := do
  if (← network).isTrivial piece then
    modifyNetwork fun network => (network.redirectFirst piece.left next.left).removeState piece.right
  else
    epsilon piece.right next.left

/-- The pieces one after the other. -/
def sequence (plan : Plan) : List Handle → Build Handle
  | [] => fail plan .emptySequence
  | [piece] => return piece
  | piece :: next :: rest => do
      join piece next
      let tail ← sequence plan (next :: rest)
      return ⟨piece.left, tail.right⟩

/-- The body of a rule between the start and the end of the rule. -/
def rule (plan : Plan) (index : Nat) (body : Handle) : Build Handle := do
  let (start, stop) ← ruleStates plan index
  epsilon start body.left
  epsilon body.right stop
  return ⟨start, stop⟩

def newBlockStart (kind : BlockKind) : Build StateId :=
  newState (.blockStart kind none none)

/-- Sets the end that belongs to the start of a block. -/
def setBlockExit (start exit : StateId) : Build Unit :=
  changeState start fun state => { state with kind := state.kind.withExit exit }

/-- Sets the state from which a loop goes back to the start of its block. -/
def setBlockLoopBack (start loopBack : StateId) : Build Unit :=
  changeState start fun state => { state with kind := state.kind.withLoopBack loopBack }

def setKind (id : StateId) (kind : StateKind) : Build Unit :=
  changeState id fun state => { state with kind }

def setGreedy (id : StateId) (greedy : Bool) : Build Unit :=
  changeState id fun state => { state with nonGreedy := !greedy }

/-- Puts an alternative between the start and the end of a block. -/
def addAlternative (start exit : StateId) (alternative : Handle) : Build Unit := do
  epsilon start alternative.left
  epsilon alternative.right exit
  modifyNetwork (·.stripTails alternative.left)

/-- A block of alternatives after its start. -/
def blockFrom (start : StateId) (alternatives : List Handle) : Build Handle := do
  let exit ← newState (.blockEnd (some start))
  setBlockExit start exit
  alternatives.forM (addAlternative start exit)
  return ⟨start, exit⟩

def blockCheck (plan : Plan) (block : Handle) : Build Check := do
  return { rule := ← currentRule plan, start := block.left, exit := block.right }

/-- A block with a way around it, which comes last if the block is greedy and first if not. -/
def optional (plan : Plan) (block : Handle) (greedy : Bool) : Build Handle := do
  let check ← blockCheck plan block
  modify fun construction =>
    { construction with optionalChecks := construction.optionalChecks.push check }
  setGreedy block.left greedy
  let bypass : Transition := ⟨block.right, .epsilon⟩
  changeState block.left fun state =>
    { state with
      transitions := if greedy then state.transitions ++ [bypass] else bypass :: state.transitions }
  return block

def warnWildcard (plan : Plan) (body : Block) (position : Option Position) (repetition : Repetition) :
    Build Unit := do
  if body.hasWildcardAlternative then
    report plan .greedyWildcardLoop position [repetition.symbol]

/-- Two ways out of `source`: into the loop first if it is greedy, and out of it first if not. -/
def fork (source inside outside : StateId) (greedy : Bool) : Build Unit :=
  if greedy then do
    epsilon source inside
    epsilon source outside
  else do
    epsilon source outside
    epsilon source inside

def addLoopCheck (check : Check) : Build Unit :=
  modify fun construction => { construction with loopChecks := construction.loopChecks.push check }

/-- A loop that can be skipped: its entry leads into the block or past it, and the end of the block leads
back to the entry. -/
def star (plan : Plan) (body : Block) (position : Option Position) (block : Handle) (greedy : Bool) :
    Build Handle := do
  addLoopCheck (← blockCheck plan block)
  let entry ← newState (.starLoopEntry none)
  setGreedy entry greedy
  discard (defineDecision entry)
  let exit ← newState (.loopEnd none)
  let loopBack ← newState .starLoopBack
  setKind entry (.starLoopEntry (some loopBack))
  setKind exit (.loopEnd (some loopBack))
  if greedy then warnWildcard plan body position .star
  fork entry block.left exit greedy
  epsilon block.right loopBack
  epsilon loopBack entry
  return ⟨entry, exit⟩

/-- A loop that runs at least once: the state behind the block leads back to its start or out. That state
stands for the loop. -/
def plus (plan : Plan) (body : Block) (position : Option Position) (block : Handle) (greedy : Bool) :
    Build (Handle × StateId) := do
  addLoopCheck (← blockCheck plan block)
  let loopBack ← newState .plusLoopBack
  setGreedy loopBack greedy
  discard (defineDecision loopBack)
  let exit ← newState (.loopEnd (some loopBack))
  setBlockLoopBack block.left loopBack
  epsilon block.right loopBack
  if greedy then warnWildcard plan body position .plus
  fork loopBack block.left exit greedy
  return (⟨block.left, exit⟩, loopBack)

/-- A block with its suffix, out of its alternatives, and the state that stands for it. -/
def block (plan : Plan) (body : Block) (position : Option Position) (alternatives : List Handle) :
    Build (Handle × StateId) := do
  match alternatives with
  | [] => fail plan .emptyBlock
  | first :: rest =>
      match body.suffix with
      | none =>
          if rest.isEmpty then return (first, first.left)
          else do
            let start ← newBlockStart .plain
            discard (defineDecision start)
            let handle ← blockFrom start alternatives
            return (handle, start)
      | some ⟨.optional, greedy⟩ => do
          let start ← newBlockStart .plain
          discard (defineDecision start)
          let handle ← optional plan (← blockFrom start alternatives) greedy
          return (handle, handle.left)
      | some ⟨.star, greedy⟩ => do
          let start ← newBlockStart .star
          if !rest.isEmpty then discard (defineDecision start)
          let handle ← star plan body position (← blockFrom start alternatives) greedy
          return (handle, handle.left)
      | some ⟨.plus, greedy⟩ => do
          let start ← newBlockStart .plus
          if !rest.isEmpty then discard (defineDecision start)
          plus plan body position (← blockFrom start alternatives) greedy

end Build

end GrammarNetwork
