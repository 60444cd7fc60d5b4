import GrammarNetwork.Diagnostic
import GrammarNetwork.Grammar.Symbol

/-! The journal of a construction: its steps and the problems it found, in the order in which they came. -/

namespace GrammarNetwork

/-- A step worth noting. -/
inductive Note where
  | grammarBuilt (kind : GrammarKind) (name : String) (rules tokens : Nat)
  | ruleStarted (rule : String)
  | decisionDefined (state decision : Nat)
  | modeStarted (mode : String) (state decision : Nat)
  | actionsCollected (grammar : String) (actions : Nat)
  | lexerFinished (grammar : String) (states modes : Nat)
  | parserFinished (grammar : String) (states links entries closures optionals : Nat)
deriving DecidableEq, Repr

def Note.toText : Note → String
  | .grammarBuilt kind name rules tokens =>
      s!"Built {kind.name} grammar {name} with {rules} rules and {tokens} token types"
  | .ruleStarted rule => s!"Building ATN of rule {rule}"
  | .decisionDefined state decision => s!"State {state} is decision {decision}"
  | .modeStarted mode state decision => s!"Mode {mode} starts at state {state} (decision {decision})"
  | .actionsCollected grammar actions => s!"Lexer {grammar} uses {actions} distinct actions"
  | .lexerFinished grammar states modes => s!"Lexer ATN for {grammar}: {states} states, {modes} modes"
  | .parserFinished grammar states links entries closures optionals =>
      s!"Parser ATN for {grammar}: {states} states, {links} follow links, {entries} entry rules, " ++
        s!"{closures} closure checks, {optionals} optional checks"

inductive Entry where
  | step (note : Note)
  | problem (diagnostic : Diagnostic)
deriving DecidableEq, Repr

namespace Entry

/-- A step is for those who look closely; a problem is for everyone. -/
def isStep : Entry → Bool
  | .step _ => true
  | .problem _ => false

def levelName : Entry → String
  | .step _ => "DEBUG"
  | .problem diagnostic =>
      match diagnostic.severity with
      | .warning => "WARN"
      | .error => "ERROR"

def toText : Entry → String
  | .step note => note.toText
  | .problem diagnostic => diagnostic.toText

/-- The entry as a line of a log. -/
def logLine (entry : Entry) : String :=
  s!"[{entry.levelName}] {entry.toText}"

def diagnostic? : Entry → Option Diagnostic
  | .step _ => none
  | .problem diagnostic => some diagnostic

end Entry

/-- What happened so far, the oldest entry first. -/
structure Journal where
  entries : Array Entry := #[]
deriving DecidableEq, Repr

namespace Journal

def note (journal : Journal) (note : Note) : Journal :=
  ⟨journal.entries.push (.step note)⟩

def report (journal : Journal) (diagnostic : Diagnostic) : Journal :=
  ⟨journal.entries.push (.problem diagnostic)⟩

/-- The problems in the order of their reports. -/
def diagnostics (journal : Journal) : List Diagnostic :=
  journal.entries.toList.filterMap Entry.diagnostic?

def ofKind (journal : Journal) (problem : Problem) : List Diagnostic :=
  journal.diagnostics.filter fun diagnostic => diagnostic.problem == problem

def count (journal : Journal) (problem : Problem) : Nat :=
  (journal.ofKind problem).length

def errorCount (journal : Journal) : Nat :=
  journal.diagnostics.countP fun diagnostic => diagnostic.severity == .error

def warningCount (journal : Journal) : Nat :=
  journal.diagnostics.countP fun diagnostic => diagnostic.severity == .warning

def logLines (journal : Journal) : List String :=
  journal.entries.toList.map Entry.logLine

end Journal

end GrammarNetwork
