import GrammarNetwork.Proofs.Languages

/-! Emptiness: which languages have a word without symbols. Whether the language of a rule has one shows after
finitely many rounds in which the rules get words from each other. -/

namespace GrammarNetwork

open Computability

def Letter.isEvent : Letter → Bool
  | .event _ _ => true
  | .symbol _ => false

/-- Some word of the language matches nothing, though actions may run. -/
def MatchesNothing (language : Language Letter) : Prop :=
  ∃ word ∈ language, ∀ letter ∈ word, letter.isEvent = true

namespace MatchesNothing

variable {first second : Language Letter}

theorem mono (le : first ≤ second) (empty : MatchesNothing first) : MatchesNothing second := by
  obtain ⟨word, member, silent⟩ := empty
  exact ⟨word, le member, silent⟩

@[simp] theorem zero_iff : MatchesNothing 0 ↔ False :=
  ⟨fun ⟨_, member, _⟩ => member, False.elim⟩

@[simp] theorem one_iff : MatchesNothing 1 ↔ True :=
  ⟨fun _ => trivial, fun _ => ⟨[], rfl, by simp⟩⟩

@[simp] theorem add_iff : MatchesNothing (first + second) ↔ MatchesNothing first ∨ MatchesNothing second := by
  constructor
  · rintro ⟨word, member | member, silent⟩
    · exact Or.inl ⟨word, member, silent⟩
    · exact Or.inr ⟨word, member, silent⟩
  · rintro (empty | empty)
    · exact empty.mono le_self_add
    · exact empty.mono le_add_self

@[simp] theorem mul_iff : MatchesNothing (first * second) ↔ MatchesNothing first ∧ MatchesNothing second := by
  constructor
  · rintro ⟨_, ⟨left, here, right, there, rfl⟩, silent⟩
    rw [List.forall_mem_append] at silent
    exact ⟨⟨left, here, silent.1⟩, right, there, silent.2⟩
  · rintro ⟨⟨left, here, silent⟩, right, there, quiet⟩
    exact ⟨left ++ right, ⟨left, here, right, there, rfl⟩, List.forall_mem_append.mpr ⟨silent, quiet⟩⟩

@[simp] theorem kstar_iff : MatchesNothing (first∗) ↔ True :=
  ⟨fun _ => trivial, fun _ => ⟨[], Language.nil_mem_kstar first, by simp⟩⟩

end MatchesNothing

/-- A label matches nothing when the search goes on behind it, or into a rule that matches nothing. -/
theorem Label.matchesNothing_iff {vocabulary : IntervalSet} {meanings : Meanings} {action : Option LexerAction}
    {label : Label} (plain : label.isCall = false) :
    MatchesNothing (label.words vocabulary meanings action) ↔ label.isEpsilon = true := by
  have emits : MatchesNothing (label.words vocabulary meanings action) ↔
      ∃ word, label.Emits vocabulary action word ∧ ∀ letter ∈ word, letter.isEvent = true :=
    exists_congr fun word => and_congr_left' (Label.mem_words plain)
  rw [emits]
  cases label <;> simp_all [Label.Emits, Label.isEpsilon, Letter.isEvent, Label.isCall]

namespace Plan

variable {plan : Plan} {vocabulary : IntervalSet}

/-- The words that the rules have after some rounds, when they have none at first. What runs is left open. -/
def rounds (plan : Plan) (vocabulary : IntervalSet) : Nat → Meanings
  | 0 => fun _ => 0
  | count + 1 => plan.ruleWords vocabulary (fun _ => none) (plan.rounds vocabulary count)

theorem rounds_succ (count : Nat) : plan.rounds vocabulary count ≤ plan.rounds vocabulary (count + 1) := by
  induction count with
  | zero => exact fun _ => bot_le
  | succ count ih => exact ruleWords_mono ih

theorem rounds_mono : Monotone (plan.rounds vocabulary) :=
  monotone_nat_of_le_succ rounds_succ

theorem rounds_le_language (count : Nat) : plan.rounds vocabulary count ≤ plan.plainLanguage vocabulary := by
  induction count with
  | zero => exact fun _ => bot_le
  | succ count ih =>
      rw [← ruleWords_plainLanguage]
      exact ruleWords_mono ih

/-- Two languages that match nothing after some rounds do so after the later ones of these rounds. -/
theorem mul_round {first second : Meanings → Language Letter} (left : Monotone first) (right : Monotone second)
    (here : ∃ count, MatchesNothing (first (plan.rounds vocabulary count)))
    (there : ∃ count, MatchesNothing (second (plan.rounds vocabulary count))) :
    ∃ count, MatchesNothing (first (plan.rounds vocabulary count) * second (plan.rounds vocabulary count)) := by
  obtain ⟨early, empty⟩ := here
  obtain ⟨late, void⟩ := there
  refine ⟨max early late, MatchesNothing.mul_iff.mpr ⟨?_, ?_⟩⟩
  · exact empty.mono (left (rounds_mono (le_max_left early late)))
  · exact void.mono (right (rounds_mono (le_max_right early late)))

variable {meanings : Meanings}

section Rounds

variable (settled : ∀ rule, MatchesNothing (meanings rule) →
  ∃ count, MatchesNothing (plan.rounds vocabulary count rule))

include settled

theorem label_round (action : Option LexerAction) (label : Label)
    (empty : MatchesNothing (label.words vocabulary meanings action)) :
    ∃ count, MatchesNothing (label.words vocabulary (plan.rounds vocabulary count) action) := by
  cases label with
  | call rule => exact settled rule empty
  | _ => exact ⟨0, empty⟩

theorem leaf_round (action : Option LexerAction) (leaf : Option Leaf)
    (empty : MatchesNothing ((leaf.map (Leaf.words vocabulary meanings action)).getD 0)) :
    ∃ count, MatchesNothing ((leaf.map (Leaf.words vocabulary (plan.rounds vocabulary count) action)).getD 0) := by
  rcases leaf with _ | labels | _
  · exact (MatchesNothing.zero_iff.mp empty).elim
  · induction labels with
    | nil => exact ⟨0, empty⟩
    | cons label labels ih =>
        simp only [Option.map_some, Option.getD_some, Leaf.words, List.map_cons, List.prod_cons] at empty ih ⊢
        obtain ⟨here, there⟩ := MatchesNothing.mul_iff.mp empty
        exact mul_round (fun _ _ le => words_mono le action label)
          (fun _ _ le => leafWords_mono le action (.chain labels)) (label_round settled action label here) (ih there)
  · exact (MatchesNothing.zero_iff.mp empty).elim

theorem command_round {site : Site} {alternative : Nat} (written : List Command) : ∀ {number : Nat},
    MatchesNothing (plan.commandWords vocabulary meanings (fun _ => none) site alternative number written) →
    ∃ count, MatchesNothing (plan.commandWords vocabulary (plan.rounds vocabulary count) (fun _ => none) site alternative
      number written) := by
  induction written with
  | nil => exact fun empty => ⟨0, empty⟩
  | cons first rest ih =>
      intro number empty
      simp only [commandWords] at empty ⊢
      obtain ⟨here, there⟩ := MatchesNothing.mul_iff.mp empty
      cases known : plan.commandLabel? site.rule first with
      | none =>
          rw [known] at here
          exact (MatchesNothing.zero_iff.mp here).elim
      | some label =>
          rw [known] at here
          exact mul_round (fun _ _ le => words_mono le _ label) (fun _ _ le => commandWords_mono le site _ rest _)
            (label_round settled _ label here) (ih there)

end Rounds

mutual

theorem element_round
    (settled : ∀ rule, MatchesNothing (meanings rule) → ∃ count, MatchesNothing (plan.rounds vocabulary count rule)) :
    ∀ (element : Element) {site : Site},
    MatchesNothing (plan.elementWords vocabulary meanings (fun _ => none) site element) →
    ∃ count, MatchesNothing (plan.elementWords vocabulary (plan.rounds vocabulary count) (fun _ => none) site element)
  | ⟨.block ⟨alternatives, none⟩, _⟩, _, empty => alternatives_round settled alternatives empty
  | ⟨.block ⟨alternatives, some ⟨.optional, _⟩⟩, _⟩, _, _ => ⟨0, MatchesNothing.add_iff.mpr (Or.inl (by simp))⟩
  | ⟨.block ⟨alternatives, some ⟨.star, _⟩⟩, _⟩, _, _ => ⟨0, MatchesNothing.kstar_iff.mpr trivial⟩
  | ⟨.block ⟨alternatives, some ⟨.plus, _⟩⟩, _⟩, _, empty => by
      obtain ⟨count, inner⟩ := alternatives_round settled alternatives (MatchesNothing.mul_iff.mp empty).1
      exact ⟨count, MatchesNothing.mul_iff.mpr ⟨inner, MatchesNothing.kstar_iff.mpr trivial⟩⟩
  | ⟨.token _, _⟩, _, empty | ⟨.rule _ _, _⟩, _, empty | ⟨.literal _, _⟩, _, empty | ⟨.charSet _, _⟩, _, empty
  | ⟨.range _ _, _⟩, _, empty | ⟨.set _ _, _⟩, _, empty | ⟨.wildcard, _⟩, _, empty | ⟨.action _ _, _⟩, _, empty
  | ⟨.predicate _ _ _, _⟩, _, empty => leaf_round settled _ _ empty

theorem list_round
    (settled : ∀ rule, MatchesNothing (meanings rule) → ∃ count, MatchesNothing (plan.rounds vocabulary count rule)) :
    ∀ (elements : List Element) {site : Site} {alternative number : Nat},
    MatchesNothing (plan.listWords vocabulary meanings (fun _ => none) site alternative number elements) →
    ∃ count, MatchesNothing
      (plan.listWords vocabulary (plan.rounds vocabulary count) (fun _ => none) site alternative number elements)
  | [], _, _, _, empty => ⟨0, empty⟩
  | first :: rest, site, alternative, number, empty => by
      obtain ⟨here, there⟩ := MatchesNothing.mul_iff.mp empty
      exact mul_round (fun _ _ le => elementWords_mono le _ first) (fun _ _ le => listWords_mono le site _ _ rest)
        (element_round settled first here) (list_round settled rest there)

theorem alternatives_round
    (settled : ∀ rule, MatchesNothing (meanings rule) → ∃ count, MatchesNothing (plan.rounds vocabulary count rule)) :
    ∀ (alternatives : List Alternative) {site : Site} {number : Nat},
    MatchesNothing (plan.alternativeWords vocabulary meanings (fun _ => none) site number alternatives) →
    ∃ count, MatchesNothing
      (plan.alternativeWords vocabulary (plan.rounds vocabulary count) (fun _ => none) site number alternatives)
  | [], _, _, empty => (MatchesNothing.zero_iff.mp empty).elim
  | ⟨elements, written⟩ :: rest, site, number, empty => by
      rcases MatchesNothing.add_iff.mp empty with inner | later
      · obtain ⟨here, there⟩ := MatchesNothing.mul_iff.mp inner
        obtain ⟨count, found⟩ := mul_round (fun _ _ le => listWords_mono le site _ _ elements)
          (fun _ _ le => commandWords_mono le site _ written _) (list_round settled elements here)
          (command_round settled written there)
        exact ⟨count, MatchesNothing.add_iff.mpr (Or.inl found)⟩
      · obtain ⟨count, found⟩ := alternatives_round settled rest later
        exact ⟨count, MatchesNothing.add_iff.mpr (Or.inr found)⟩

end

/-- A rule that matches nothing does so after some rounds. -/
theorem language_round {rule : Nat} (empty : MatchesNothing (plan.plainLanguage vocabulary rule)) :
    ∃ count, MatchesNothing (plan.rounds vocabulary count rule) := by
  -- The words that are no reason for a round are closed under the rules, so the language has no others.
  let fair : Meanings := fun rule => Set.ofPred fun word =>
    (∀ letter ∈ word, letter.isEvent = true) → ∃ count, MatchesNothing (plan.rounds vocabulary count rule)
  have settled : ∀ rule, MatchesNothing (fair rule) → ∃ count, MatchesNothing (plan.rounds vocabulary count rule) :=
    fun rule ⟨word, member, silent⟩ => member silent
  have closed : plan.ruleWords vocabulary (fun _ => none) fair ≤ fair := by
    intro index word member silent
    have inner : MatchesNothing (plan.ruleWords vocabulary (fun _ => none) fair index) := ⟨word, member, silent⟩
    simp only [ruleWords] at inner
    cases listed : plan.grammar.rules[index]? with
    | none =>
        rw [listed] at inner
        exact (MatchesNothing.zero_iff.mp inner).elim
    | some rule =>
        rw [listed] at inner
        obtain ⟨count, found⟩ := alternatives_round settled rule.alternatives inner
        refine ⟨count + 1, ?_⟩
        simpa only [rounds, ruleWords, listed] using found
  exact settled rule (empty.mono (language_le closed rule))

end Plan

end GrammarNetwork
