import Mathlib
import GrammarNetwork.Proofs.Enactments
import GrammarNetwork.Proofs.Sketches

/-! The words of a trail: what one can match and run on the way along it, when it is known which words the
rules that it calls have. Taking states out leaves the words as they are. -/

namespace GrammarNetwork

open Computability

/-- What a step of a run brings: a symbol that is matched, or code of a rule with the action that it stands for, if
there is a table of actions. -/
inductive Letter where
  | symbol (value : Int)
  | event (rule : Nat) (action : Option LexerAction)
deriving DecidableEq, Repr

abbrev Word := List Letter

/-- The words of the rules. -/
abbrev Meanings := Nat → Language Letter

/-- The action that runs when a state is left along a transition with a label. -/
abbrev Naming := StateId → Label → Option LexerAction

/-- Leaves open what runs. -/
abbrev Naming.blank : Naming := fun _ _ => none

namespace Label

/-- Going along the label brings this word, if this is the action that runs. A call is no step of its own. -/
def Emits (vocabulary : IntervalSet) (action : Option LexerAction) : Label → Word → Prop
  | .epsilon, word | .predicate _ _ _, word | .precedence _, word => word = []
  | .action rule _ _, word => word = [.event rule action]
  | .atom symbol, word => word = [.symbol symbol]
  | .range first last, word => ∃ symbol, first ≤ symbol ∧ symbol ≤ last ∧ word = [.symbol symbol]
  | .set symbols, word => ∃ symbol, symbols.contains symbol = true ∧ word = [.symbol symbol]
  | .notSet symbols, word =>
      ∃ symbol, vocabulary.contains symbol = true ∧ symbols.contains symbol = false ∧ word = [.symbol symbol]
  | .wildcard, word => ∃ symbol, vocabulary.contains symbol = true ∧ word = [.symbol symbol]
  | .call _ _ _, _ => False

/-- The words of a label; those of a call are the words of the rule. -/
def words (vocabulary : IntervalSet) (meanings : Meanings) (action : Option LexerAction) : Label → Language Letter
  | .call rule _ _ => meanings rule
  | label => Set.ofPred (label.Emits vocabulary action)

variable {vocabulary : IntervalSet} {meanings : Meanings} {action other : Option LexerAction}

theorem words_erase (label : Label) :
    label.erase.words vocabulary meanings action = label.words vocabulary meanings action := by
  cases label <;> rfl

theorem words_of_passes {label : Label} (passes : label.passes = true) :
    label.words vocabulary meanings action = 1 := by
  cases label <;> first | rfl | cases passes

/-- What would run elsewhere makes no difference. -/
theorem words_congr {label : Label} (same : label.isAction = true → action = other) :
    label.words vocabulary meanings action = label.words vocabulary meanings other := by
  cases label with
  | action => rw [same rfl]
  | _ => rfl

theorem mem_words {label : Label} (plain : label.isCall = false) {word : Word} :
    word ∈ label.words vocabulary meanings action ↔ label.Emits vocabulary action word := by
  cases label <;> first | rfl | cases plain

end Label

/-- The words of a block whose alternatives have these words. -/
def Frame.words (inner : Language Letter) : Frame → Language Letter
  | .plain _ => inner
  | .optional _ _ => 1 + inner
  | .star _ _ _ _ _ _ => inner∗
  | .plus _ _ _ _ _ => inner * inner∗

@[simp] theorem Frame.words_erase (frame : Frame) (inner : Language Letter) :
    frame.erase.words inner = frame.words inner := by
  cases frame <;> rfl

section Words

variable (vocabulary : IntervalSet) (meanings : Meanings) (names : Naming)

mutual

/-- The words on the ways along a trail. -/
def Trail.words : Trail → Language Letter
  | .done => 1
  | .step source label rest => label.words vocabulary meanings (names source label) * rest.words
  | .gap _ _ => 0
  | .block frame _ _ ways rest => frame.words ways.words * rest.words

def Ways.words : Ways → Language Letter
  | .none => 0
  | .more way rest => way.words + rest.words

end

mutual

/-- The numbers of the states make no difference where nothing depends on them. -/
theorem Trail.words_erase (action : Option LexerAction) : ∀ (trail : Trail),
    trail.erase.words vocabulary meanings (fun _ _ => action) = trail.words vocabulary meanings fun _ _ => action
  | .done => rfl
  | .step _ label rest => by simp [Trail.erase, Trail.words, label.words_erase, rest.words_erase action]
  | .gap _ _ => rfl
  | .block frame _ _ ways rest => by
      simp [Trail.erase, Trail.words, ways.words_erase action, rest.words_erase action]

theorem Ways.words_erase (action : Option LexerAction) : ∀ (ways : Ways),
    ways.erase.words vocabulary meanings (fun _ _ => action) = ways.words vocabulary meanings fun _ _ => action
  | .none => rfl
  | .more way rest => by simp [Ways.erase, Ways.words, way.words_erase action, rest.words_erase action]

end

mutual

/-- The words depend only on what runs along the labels of the trail. -/
theorem Trail.words_congr (other : Naming) : ∀ (trail : Trail),
    (∀ label ∈ trail.labels, label.isAction = true → ∀ id, names id label = other id label) →
    trail.words vocabulary meanings names = trail.words vocabulary meanings other
  | .done, _ => rfl
  | .step source _ rest, same => by
      rw [Trail.labels, List.forall_mem_cons] at same
      rw [Trail.words, Trail.words, Label.words_congr fun runs => same.1 runs source, rest.words_congr other same.2]
  | .gap _ _, _ => rfl
  | .block frame _ _ ways rest, same => by
      rw [Trail.labels, List.forall_mem_append] at same
      rw [Trail.words, Trail.words, ways.words_congr other same.1, rest.words_congr other same.2]

theorem Ways.words_congr (other : Naming) : ∀ (ways : Ways),
    (∀ label ∈ ways.labels, label.isAction = true → ∀ id, names id label = other id label) →
    ways.words vocabulary meanings names = ways.words vocabulary meanings other
  | .none, _ => rfl
  | .more way rest, same => by
      rw [Ways.labels, List.forall_mem_append] at same
      rw [Ways.words, Ways.words, way.words_congr other same.1, rest.words_congr other same.2]

end

theorem Trail.words_of_passes {trail : Trail} (passes : trail.passes = true) :
    trail.words vocabulary meanings names = 1 := by
  unfold Trail.passes at passes
  split at passes
  · simp [Trail.words, Label.words_of_passes passes]
  · cases passes

mutual

/-- What is taken out before the end of a block matches nothing. -/
theorem Trail.words_strip : ∀ (trail : Trail) (other : Bool),
    (trail.strip other).words vocabulary meanings names = trail.words vocabulary meanings names
  | .done, _ => rfl
  | .step source label rest, other => by
      simp only [Trail.strip]
      split
      · rename_i taken
        have passes := (Bool.and_eq_true_iff.mp taken).2
        simp [Trail.words, Trail.words_of_passes vocabulary meanings names passes]
      · split
        · rfl
        · simp [Trail.words, rest.words_strip other]
  | .gap _ _, _ => rfl
  | .block frame _ _ ways rest, other => by
      simp only [Trail.strip, Trail.words, ways.words_strip !frame.isStar]
      split
      · rw [rest.words_strip other]
      · rfl

theorem Ways.words_strip : ∀ (ways : Ways) (other : Bool),
    (ways.strip other).words vocabulary meanings names = ways.words vocabulary meanings names
  | .none, _ => rfl
  | .more way rest, other => by simp [Ways.strip, Ways.words, way.words_strip other, rest.words_strip other]

end

theorem Trail.words_append (next : Trail) : ∀ (trail : Trail),
    (trail.append next).words vocabulary meanings names =
      trail.words vocabulary meanings names * next.words vocabulary meanings names
  | .done => by simp [Trail.append, Trail.words]
  | .step _ _ rest => by simp [Trail.append, Trail.words, Trail.words_append next rest, mul_assoc]
  | .gap _ _ => by simp [Trail.append, Trail.words]
  | .block _ _ _ _ rest => by simp [Trail.append, Trail.words, Trail.words_append next rest, mul_assoc]

/-- The end of a single transition, which is left out, matches nothing. -/
theorem Trail.words_join {trail : Trail} (opens : trail.IsOpen) (next : Trail) :
    (trail.join next).words vocabulary meanings names =
      trail.words vocabulary meanings names * next.words vocabulary meanings names := by
  unfold Trail.join
  split
  · rename_i source label single
    obtain ⟨target, last, rfl⟩ := single?_eq_some.mp single
    obtain rfl : last = .epsilon := by simpa [Trail.IsOpen, Trail.first?] using opens
    have silent : Label.words vocabulary meanings (names target .epsilon) .epsilon = 1 := Label.words_of_passes rfl
    simp [Trail.words, silent]
  · exact Trail.words_append vocabulary meanings names next trail

theorem Trail.words_joinAll : ∀ {trails : List Trail}, (∀ trail ∈ trails, trail.IsOpen) →
    (Trail.joinAll trails).words vocabulary meanings names =
      (trails.map (Trail.words vocabulary meanings names)).prod
  | [], _ => rfl
  | [_], _ => by simp [Trail.joinAll]
  | trail :: next :: rest, opens => by
      rw [List.forall_mem_cons] at opens
      simp only [Trail.joinAll, Trail.words_join vocabulary meanings names opens.1, Trail.words_joinAll opens.2,
        List.map_cons, List.prod_cons]

theorem Ways.words_ofList (trails : List Trail) :
    (Ways.ofList trails).words vocabulary meanings names =
      (trails.map (Trail.words vocabulary meanings names)).sum := by
  induction trails with
  | nil => rfl
  | cons trail trails ih => simp [Ways.ofList, Ways.words, ih]

theorem Trail.words_chain (action : Option LexerAction) (labels : List Label) :
    (Trail.chain labels).words vocabulary meanings (fun _ _ => action) =
      (labels.map (Label.words vocabulary meanings action)).prod := by
  have silent : Label.words vocabulary meanings action .epsilon = 1 := Label.words_of_passes rfl
  induction labels with
  | nil => simp [Trail.chain, Trail.words, silent]
  | cons label labels ih => simp [Trail.chain, Trail.words, ih]

end Words

end GrammarNetwork
