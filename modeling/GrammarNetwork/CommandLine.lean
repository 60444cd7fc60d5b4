import GrammarNetwork.Construction.Complete
import GrammarNetwork.Description.Load
import GrammarNetwork.Network.Dot

/-! The command line: dumps the network of the grammar that a file describes. -/

namespace GrammarNetwork.CommandLine

inductive Format where
  | text
  | dot
deriving DecidableEq, Repr

structure Options where
  grammar : String
  format : Format := .text
  rule : Option String := none
  verbosity : Nat := 0
deriving DecidableEq, Repr

/-- What a run writes, and its exit status. -/
structure Output where
  status : Nat := 0
  out : String := ""
  err : String := ""
deriving DecidableEq, Repr

def lines (texts : List String) : String :=
  String.join (texts.map (· ++ "\n"))

/-- Whether an entry of the journal is shown: problems from verbosity 1 on, steps from 2 on. -/
def isShown (verbosity : Nat) (entry : Entry) : Bool :=
  match verbosity with
  | 0 => false
  | 1 => !entry.isStep
  | _ => true

def logLines (verbosity : Nat) (journal : Journal) : List String :=
  (journal.entries.toList.filter (isShown verbosity)).map Entry.logLine

/-- The name of the grammar in a file. -/
def grammarName (path : String) : String :=
  ((Path.fileName? path).map Path.stem).getD "Grammar"

/-- The grammar in a file, or the message that says why there is none. -/
def loadGrammar (path : String) (content : Except String String) : Except String Grammar :=
  match Draft.load { kind := .parser, name := grammarName path } path content with
  | .error error => .error error.message
  | .ok draft =>
      match draft.build with
      | .error error => .error error.message
      | .ok grammar => .ok grammar

/-- The listing of a rule under its name. -/
def ruleSection (grammar : Grammar) (network : Network) (rule : Rule) (index : Nat) : String :=
  rule.name ++ ":\n" ++ network.listing grammar (network.ruleStarts[index]?.getD 0) ++ "\n"

def render (options : Options) (grammar : Grammar) (network : Network) : String :=
  match options.format with
  | .text =>
      String.join (grammar.rules.toList.zipIdx.filterMap fun entry =>
        if options.rule.all (· == entry.1.name) then
          some (ruleSection grammar network entry.1 entry.2)
        else
          none)
  | .dot => (network.graph grammar options.rule).render

/-- Dumps the network of a grammar. -/
def dump (options : Options) (grammar : Grammar) : Output :=
  let journal := ({} : Journal).note grammar.note
  let shown (journal : Journal) := logLines options.verbosity journal
  let missing := options.rule.filter fun rule => (grammar.ruleIndex? rule).isNone
  match missing with
  | some rule =>
      { status := 1, err := lines (shown journal ++ [s!"Grammar {grammar.name} has no rule {rule}"]) }
  | none =>
      match (Plan.ofGrammar grammar).run journal with
      | .error failure construction =>
          { status := 1, err := lines (shown construction.journal ++ [failure.message]) }
      | .ok network construction =>
          let journal := construction.journal
          { status := if journal.errorCount > 0 then 1 else 0
            out := render options grammar network
            err := lines (shown journal ++ journal.diagnostics.map Diagnostic.toText) }

/-- A run on a file with this content, or the reason why the file cannot be read. -/
def run (options : Options) (content : Except String String) : Output :=
  match loadGrammar options.grammar content with
  | .error message => { status := 1, err := lines [message] }
  | .ok grammar => dump options grammar

def format? : String → Option Format
  | "text" => some .text
  | "dot" => some .dot
  | _ => none

/-- The options given so far; the grammar may come last. -/
structure Given where
  grammar : Option String := none
  format : Format := .text
  rule : Option String := none
  verbosity : Nat := 0

/-- Takes an option with its value. -/
def Given.set (found : Given) (name value : String) : Except String Given :=
  match name with
  | "grammar" => .ok { found with grammar := some value }
  | "rule" => .ok { found with rule := some value }
  | "format" =>
      match format? value with
      | some format => .ok { found with format }
      | none => .error s!"invalid format '{value}'"
  | _ => .error s!"unexpected option '{name}'"

/-- The long name of an option that takes a value. -/
def optionName? : String → Option String
  | "--grammar" | "-g" => some "grammar"
  | "--format" | "-f" => some "format"
  | "--rule" | "-r" => some "rule"
  | _ => none

/-- How often `-v` is given in one argument, `-vv` counting twice. -/
def verboseCount? (argument : String) : Option Nat :=
  match argument.toList with
  | '-' :: 'v' :: rest => if rest.all (· == 'v') then some (rest.length + 1) else none
  | _ => if argument = "--verbose" then some 1 else none

/-- Splits `--name=value`. -/
def splitOption? (argument : String) : Option (String × String) :=
  match argument.toList.dropWhile (· != '=') with
  | [] => none
  | _ :: value =>
      (optionName? (String.ofList (argument.toList.takeWhile (· != '=')))).map fun name =>
        (name, String.ofList value)

/-- Takes an argument that stands for itself: a `-v`, or an option joined to its value. -/
def Given.take (found : Given) (argument : String) : Except String Given :=
  match verboseCount? argument, splitOption? argument with
  | some count, _ => .ok { found with verbosity := found.verbosity + count }
  | none, some (name, value) => found.set name value
  | none, none => .error s!"unexpected argument '{argument}'"

def readArguments (found : Given) : List String → Except String Given
  | [] => .ok found
  | [argument] =>
      match optionName? argument with
      | some name => .error s!"a value is required for '{name}'"
      | none => found.take argument
  | argument :: value :: rest =>
      match optionName? argument with
      | some name => do readArguments (← found.set name value) rest
      | none => do readArguments (← found.take argument) (value :: rest)

def readOptions (arguments : List String) : Except String Options := do
  let found ← readArguments {} arguments
  match found.grammar with
  | some grammar =>
      return { grammar, format := found.format, rule := found.rule, verbosity := found.verbosity }
  | none => throw "the option '--grammar <GRAMMAR>' is required"

end GrammarNetwork.CommandLine
