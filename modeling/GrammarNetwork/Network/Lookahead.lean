import Std.Data.TreeSet
import GrammarNetwork.Network.Basic

/-! Lookahead: the symbols that can come first on the paths from one state to another. The search follows
what consumes nothing, keeps the follow states of the calls it is in on a stack, and does not call a rule
that it is already in. -/

namespace GrammarNetwork

/-- Answers which symbols can be matched first between a state and a state to stop at. The empty word is
among them if nothing need be matched. -/
abbrev Lookahead := Network → StateId → Option StateId → IntervalSet

/-- The symbols found so far, and the configurations already looked at: a state in front of its stack. -/
structure LookSearch where
  look : IntervalSet := .empty
  busy : Std.TreeSet (List StateId) := ∅

namespace LookSearch

def addSymbol (search : LookSearch) (symbol : Int) : LookSearch :=
  { search with look := search.look.insert symbol }

def addSymbols (search : LookSearch) (symbols : IntervalSet) : LookSearch :=
  { search with look := search.look.union symbols }

def enter (search : LookSearch) (id : StateId) (stack : List StateId) : LookSearch :=
  { search with busy := search.busy.insert (id :: stack) }

end LookSearch

namespace Network

/-- Looks from a state. `called` holds the rules that may not be called, `stack` the follow states to return
to; `depth` bounds how far the search goes down. -/
def lookFrom (network : Network) (stop : Option StateId) :
    (depth : Nat) → (called : List Nat) → (stack : List StateId) → StateId → LookSearch → LookSearch
  | 0, _, _, _, search => search
  | depth + 1, called, stack, id, search =>
      if search.busy.contains (id :: stack) then search
      else
        match network.state? id with
        | none => search.enter id stack
        | some state =>
            if stop = some id ∧ stack = [] then (search.enter id stack).addSymbol emptyWord
            else if state.kind = .ruleStop then
              match stack with
              | [] => (search.enter id stack).addSymbol emptyWord
              | follow :: rest =>
                  let returning := (network.state? follow).bind State.rule
                  let called := (returning.map called.erase).getD called
                  network.lookFrom stop depth called rest follow (search.enter id (follow :: rest))
            else
              state.transitions.foldl
                (fun search transition =>
                  match transition.label with
                  | .call rule _ follow =>
                      if rule ∈ called then search
                      else
                        network.lookFrom stop depth (rule :: called) (follow :: stack)
                          transition.target search
                  | .wildcard => search.addSymbols network.vocabulary
                  | .notSet symbols => search.addSymbols (symbols.complement network.vocabulary)
                  | label =>
                      if label.isEpsilon then
                        network.lookFrom stop depth called stack transition.target search
                      else
                        search.addSymbols (label.symbols?.getD .empty))
                (search.enter id stack)

/-- The number of transitions of a state that call rules. -/
def slotCallCount (slot : Option State) : Nat :=
  ((slot.map State.transitions).getD []).countP fun transition =>
    match transition.label with
    | .call _ _ _ => true
    | _ => false

/-- The number of transitions that call rules. -/
def callCount (network : Network) : Nat :=
  network.states.foldl (fun count slot => count + slotCallCount slot) 0

/-- More than there are pairs of a state and a stack. A stack has at most one follow state for each rule
that is called, and follow states come from calls. -/
def lookDepth (network : Network) : Nat :=
  network.states.size * Nat.pow (network.callCount + 1) network.callCount + 1

/-- The symbols that can be matched first on a path from `start`, up to `stop` or the end of the rule. -/
def look (network : Network) (start : StateId) (stop : Option StateId) : IntervalSet :=
  (network.lookFrom stop network.lookDepth [] [] start {}).look

end Network

end GrammarNetwork
