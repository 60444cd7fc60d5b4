import GrammarNetwork.Construction.Basic
import GrammarNetwork.Unicode.Whitespace

/-! Lexer commands: built-in ones become actions, others are looked up among the templates. -/

namespace GrammarNetwork

/-- The commands that contradict a command. -/
def incompatibleCommands : String → List String
  | "skip" => ["more", "type", "channel"]
  | "more" => ["skip", "type", "channel"]
  | "type" => ["more", "skip"]
  | "channel" => ["more", "skip"]
  | _ => []

/-- What is wrong with a command after the commands in `used`. Modes can be pushed and popped freely. -/
def commandConflicts (used : List String) (command : String) : List (Problem × List String) :=
  if command = "pushMode" ∨ command = "popMode" then []
  else
    (if command ∈ used then [(.duplicateCommand, [command])] else []) ++
      match (incompatibleCommands command).find? fun other => decide (other ∈ used) with
      | some other => [(.incompatibleCommands, [other, command])]
      | none => []

/-- The value of decimal digits. -/
def decimalValue? (digits : List Char) : Option Nat :=
  if digits.isEmpty || !digits.all Char.isDigit then none
  else some (digits.foldl (fun sum digit => sum * 10 + (digit.toNat - '0'.toNat)) 0)

/-- Reads a signed integer of 32 bits. -/
def int32? (text : String) : Option Int := do
  let value ← match text.toList with
    | '-' :: digits => (decimalValue? digits).map fun value => -(value : Int)
    | '+' :: digits => (decimalValue? digits).map fun value => (value : Int)
    | digits => (decimalValue? digits).map fun value => (value : Int)
  if isInt32 value then some value else none

/-- The kinds of names that commands take. -/
inductive NameSpace where
  | modes
  | tokens
  | channels
deriving DecidableEq, Repr

namespace NameSpace

/-- The value of a common constant that may be used here. -/
def constant? (space : NameSpace) (name : String) : Option Int :=
  match space with
  | .modes => if name = defaultModeName then some defaultMode else none
  | .tokens => if name = "EOF" then some endOfInput else none
  | .channels =>
      if name = "HIDDEN" then some hiddenChannel
      else if name = "DEFAULT_TOKEN_CHANNEL" then some defaultChannel
      else none

/-- The value of a name that the grammar defines. -/
def defined? (space : NameSpace) (grammar : Grammar) (name : String) : Option Int :=
  match space with
  | .modes => (grammar.modeIndex? name).map fun index => (index : Int)
  | .tokens =>
      if grammar.tokenType name = invalidType then none else some (grammar.tokenType name)
  | .channels => (grammar.channel? name).filter fun value => decide (minUserChannel ≤ value)

def reservedProblem : NameSpace → Problem
  | .modes => .reservedMode
  | .tokens => .reservedToken
  | .channels => .reservedChannel

def unknownProblem : NameSpace → Problem
  | .modes => .unknownMode
  | .tokens => .unknownToken
  | .channels => .unknownChannel

end NameSpace

/-- What a command with a built-in name comes to. -/
inductive Builtin where
  | plain (action : LexerAction)
  | named (space : NameSpace) (action : Int → LexerAction)

/-- The built-in command with this name. -/
def builtin? : String → Option Builtin
  | "skip" => some (.plain .skip)
  | "more" => some (.plain .more)
  | "popMode" => some (.plain .popMode)
  | "mode" => some (.named .modes .mode)
  | "pushMode" => some (.named .modes .pushMode)
  | "type" => some (.named .tokens .type)
  | "channel" => some (.named .channels .channel)
  | _ => none

namespace Build

/-- The value of the argument of a command: a constant, a name of the grammar, or a number. A name that is
none of these is reported. -/
def argumentValue? (plan : Plan) (space : NameSpace) (name : String) : Build (Option Int) := do
  match space.constant? name with
  | some value => return some value
  | none =>
      if (commonConstant? name).isSome then do
        report plan space.reservedProblem none [name]
        return none
      else
        match (space.defined? plan.grammar name).or (int32? name) with
        | some value => return some value
        | none => do
            report plan space.unknownProblem none [name]
            return none

/-- The action of a built-in command, unless its argument is wrong. -/
def builtinAction? (plan : Plan) (command : Command) (builtin : Builtin) : Build (Option LexerAction) := do
  match builtin, command.argument with
  | .plain action, none => return some action
  | .plain _, some _ => do
      report plan .unwantedArgument command.position [command.name]
      return none
  | .named _ _, none => do
      report plan .missingArgument command.position [command.name]
      return none
  | .named space action, some argument => do
      return (← argumentValue? plan space argument).map action

/-- The index of an action in the table; equal actions share one. -/
def actionIndex (action : LexerAction) : Build Nat := do
  let actions := (← get).actions
  match actions.idxOf? action with
  | some index => return index
  | none => do
      modify fun construction => { construction with actions := actions.push action }
      return actions.size

/-- A transition that runs an action. -/
def actionLeaf (plan : Plan) (action : LexerAction) : Build Handle := do
  let rule ← currentRule plan
  let index ← actionIndex action
  atom (.action rule (some index) false)

/-- A number for code that has none. -/
def newActionNumber : Build Nat := do
  let number := (← get).nextAction
  modify fun construction => { construction with nextAction := number + 1 }
  return number

/-- A transition that runs code. Blank code does nothing. -/
def inlineAction (plan : Plan) (code : String) : Build Handle := do
  if code.toList.all Unicode.isWhitespace then atom .epsilon
  else do
    let rule ← currentRule plan
    let number ← newActionNumber
    actionLeaf plan (.custom rule number)

/-- A transition for a command that is rendered from its template. -/
def templateCommand (plan : Plan) (command : Command) (template : Template) :
    Build (Handle × Option StateId) := do
  match template.takesArgument, command.argument with
  | true, none => do
      report plan .missingArgument command.position [command.name]
      return (← atom .epsilon, none)
  | false, some _ => do
      report plan .unwantedArgument command.position [command.name]
      return (← atom .epsilon, none)
  | _, argument => do
      let handle ← inlineAction plan (template.render argument)
      return (handle, some handle.left)

/-- The transition for a command, and the state that stands for it if it does anything. -/
def lexerCommand (plan : Plan) (command : Command) : Build (Handle × Option StateId) := do
  let used := (← get).usedCommands
  (commandConflicts used command.name).forM fun conflict =>
    report plan conflict.1 command.position conflict.2
  modify fun construction => { construction with usedCommands := used ++ [command.name] }
  match builtin? command.name with
  | some builtin =>
      match ← builtinAction? plan command builtin with
      | some action => do
          let handle ← actionLeaf plan action
          return (handle, some handle.left)
      | none => return (← atom .epsilon, none)
  | none =>
      match plan.templates (templateName command.name) with
      | some template => templateCommand plan command template
      | none => do
          report plan .unknownCommand command.position [command.name]
          return (← atom .epsilon, none)

end Build

end GrammarNetwork
