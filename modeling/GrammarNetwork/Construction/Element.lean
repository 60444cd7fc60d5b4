import GrammarNetwork.Construction.Compose
import GrammarNetwork.Construction.Leaf

/-! Whole elements, alternatives and rules: what is inside is built before what it is in. -/

namespace GrammarNetwork

namespace Build

/-- The commands of alternative `alternative` in the block at `site`, from the one with number `index`. -/
def commands (plan : Plan) (site : Site) (alternative : Nat) : Nat → List Command → Build (List Handle)
  | _, [] => return []
  | index, first :: rest => do
      let (handle, mark) ← command plan first
      match mark with
      | some state => markCommand (site.child alternative index) state
      | none => pure ()
      let rest ← commands plan site alternative (index + 1) rest
      return handle :: rest

/-- The elements of an alternative one after the other, with its commands behind them. -/
def assemble (plan : Plan) (site : Site) (alternative : Nat) (elements : List Handle)
    (written : List Command) : Build Handle := do
  let body ← if elements.isEmpty then atom .epsilon else sequence plan elements
  if written.isEmpty then return body
  else do
    let handles ← commands plan site alternative 0 written
    let behind ← sequence plan handles
    attachCommands plan body behind

mutual

/-- The piece for the element at `site`, and the state that stands for it. -/
def element (plan : Plan) (site : Site) : Element → Build (Handle × StateId)
  | ⟨.block ⟨alternatives, suffix⟩, position⟩ => do
      let handles ← alternativeList plan site 0 alternatives
      block plan ⟨alternatives, suffix⟩ position handles
  | ⟨.token name, position⟩ => do
      let handle ← tokenLeaf plan name position
      return (handle, handle.left)
  | ⟨.rule name precedence, position⟩ => do
      let handle ← ruleLeaf plan name precedence position
      return (handle, handle.left)
  | ⟨.literal text, position⟩ => do
      let handle ← literalLeaf plan text position
      return (handle, handle.left)
  | ⟨.charSet text, position⟩ => do
      let handle ← charSetLeaf plan text position
      return (handle, handle.left)
  | ⟨.range first last, position⟩ => do
      let handle ← rangeLeaf plan first last position
      return (handle, handle.left)
  | ⟨.set items inverted, position⟩ => do
      let handle ← setLeaf plan items inverted position
      return (handle, handle.left)
  | ⟨.wildcard, _⟩ => do
      let handle ← atom .wildcard
      return (handle, handle.left)
  | ⟨.action _ index, _⟩ => do
      let handle ← actionElement plan index
      return (handle, handle.left)
  | ⟨.predicate code index precedence, _⟩ => do
      let handle ← predicateLeaf plan code index precedence
      return (handle, handle.left)

/-- The elements of alternative `alternative` in the block at `site`, from the one with number `index`. -/
def elementList (plan : Plan) (site : Site) (alternative : Nat) : Nat → List Element → Build (List Handle)
  | _, [] => return []
  | index, first :: rest => do
      let (handle, mark) ← element plan (site.child alternative index) first
      markElement (site.child alternative index) mark
      let rest ← elementList plan site alternative (index + 1) rest
      return handle :: rest

/-- The alternatives of the block at `site`, from the one with number `index`. -/
def alternativeList (plan : Plan) (site : Site) : Nat → List Alternative → Build (List Handle)
  | _, [] => return []
  | index, ⟨elements, written⟩ :: rest => do
      let handles ← elementList plan site index 0 elements
      let handle ← assemble plan site index handles written
      let rest ← alternativeList plan site (index + 1) rest
      return handle :: rest

end

/-- An alternative with number `index` in the block at `site`. -/
def alternative (plan : Plan) (site : Site) (index : Nat) (alternative : Alternative) : Build Handle := do
  let handles ← elementList plan site index 0 alternative.elements
  assemble plan site index handles alternative.commands

/-- The body of a rule. -/
def ruleBlock (plan : Plan) (site : Site) (body : Block) : Build Handle := do
  let handles ← alternativeList plan site 0 body.alternatives
  let (handle, _) ← block plan body none handles
  return handle

/-- Ends a rule of this plan: links its body to its start and its end. -/
def finishRule (plan : Plan) (index : Nat) (body : Handle) : Build Handle := do
  if plan.kind = .lexer then
    modify fun construction => { construction with usedCommands := [] }
  rule plan index body

/-- Builds the rule with this index. -/
def wholeRule (plan : Plan) (written : Rule) (index : Nat) : Build Unit := do
  note (.ruleStarted written.name)
  setRule index
  let body ← ruleBlock plan ⟨index, []⟩ written.body
  discard (finishRule plan index body)

def rules (plan : Plan) : Build Unit :=
  plan.grammar.rules.toList.zipIdx.forM fun entry => wholeRule plan entry.1 entry.2

end Build

end GrammarNetwork
