import GrammarNetwork.Proofs.Networks

/-! Conflicts of commands: what is reported of a rule says how often each command is repeated and whether two of them
contradict each other, however they are ordered. -/

namespace GrammarNetwork

/-- The first of two commands rules the second out. -/
def Contradicts (first second : String) : Prop :=
  second ∈ incompatibleCommands first

namespace Contradicts

variable {first second : String}

theorem cases (against : Contradicts first second) :
    first = "skip" ∧ (second = "more" ∨ second = "type" ∨ second = "channel") ∨
      first = "more" ∧ (second = "skip" ∨ second = "type" ∨ second = "channel") ∨
      (first = "type" ∨ first = "channel") ∧ (second = "more" ∨ second = "skip") := by
  unfold Contradicts incompatibleCommands at against
  split at against <;> simp_all

theorem symm (against : Contradicts first second) : Contradicts second first := by
  rcases against.cases with ⟨rfl, rfl | rfl | rfl⟩ | ⟨rfl, rfl | rfl | rfl⟩ | ⟨rfl | rfl, rfl | rfl⟩ <;>
    simp [Contradicts, incompatibleCommands]

theorem ne (against : Contradicts first second) : first ≠ second := by
  rintro rfl
  rcases against.cases with ⟨rfl, same⟩ | ⟨rfl, same⟩ | ⟨rfl | rfl, same⟩ <;> simp at same

end Contradicts

/-- Modes can be pushed and popped again and again. -/
def Repeatable (name : String) : Prop :=
  name = "pushMode" ∨ name = "popMode"

instance (name : String) : Decidable (Repeatable name) :=
  inferInstanceAs (Decidable (_ ∨ _))

/-- It is reported that the command has been given before. -/
def Diagnostic.Repeats (name : String) (diagnostic : Diagnostic) : Prop :=
  diagnostic.problem = .duplicateCommand ∧ diagnostic.arguments = [name]

instance (name : String) (diagnostic : Diagnostic) : Decidable (diagnostic.Repeats name) :=
  inferInstanceAs (Decidable (_ ∧ _))

section Reports

variable {file : String} {used : List String} {name : String}

theorem not_contradicts_of_repeatable {other : String} (free : Repeatable name) : ¬Contradicts name other := by
  intro against
  rcases against.cases with ⟨rfl, _⟩ | ⟨rfl, _⟩ | ⟨rfl | rfl, _⟩ <;> simp [Repeatable] at free

theorem commandReports_of_repeatable {command : Command} (free : Repeatable command.name) :
    commandReports file used command = [] := by
  have none : commandConflicts used command.name = [] := if_pos free
  rw [commandReports, none, List.map_nil]

/-- A command is reported for being there already, and for the first that it contradicts. -/
theorem commandReports_of_plain {command : Command} (plain : ¬Repeatable command.name) :
    commandReports file used command =
      (if command.name ∈ used then [⟨.duplicateCommand, file, command.position, [command.name]⟩] else []) ++
        (((incompatibleCommands command.name).find? fun other => decide (other ∈ used)).map fun other =>
          ⟨.incompatibleCommands, file, command.position, [other, command.name]⟩).toList := by
  have both : commandConflicts used command.name = _ := if_neg plain
  rw [commandReports, both, List.map_append]
  congr 1
  · split <;> rfl
  · split <;> rename_i found <;> rw [found] <;> rfl

theorem count_commandReports (command : Command) :
    (commandReports file used command).countP (fun diagnostic => decide (diagnostic.Repeats name)) =
      if command.name = name ∧ name ∈ used ∧ ¬Repeatable name then 1 else 0 := by
  by_cases free : Repeatable command.name
  · have none : ¬(command.name = name ∧ name ∈ used ∧ ¬Repeatable name) := by
      rintro ⟨rfl, _, plain⟩
      exact plain free
    rw [commandReports_of_repeatable free, if_neg none, List.countP_nil]
  · have against : ∀ other : Option String, ((other.map fun other =>
        (⟨.incompatibleCommands, file, command.position, [other, command.name]⟩ : Diagnostic)).toList.countP
          fun diagnostic => decide (diagnostic.Repeats name)) = 0 := by
      intro other
      cases other <;> rfl
    rw [commandReports_of_plain free, List.countP_append, against, Nat.add_zero]
    by_cases same : command.name = name
    · subst same
      by_cases before : command.name ∈ used <;> simp [before, free, Diagnostic.Repeats]
    · by_cases before : command.name ∈ used <;> simp [before, same, Diagnostic.Repeats]

theorem exists_commandReports (command : Command) :
    (∃ diagnostic ∈ commandReports file used command, diagnostic.problem = .incompatibleCommands) ↔
      ∃ other ∈ used, Contradicts command.name other := by
  by_cases free : Repeatable command.name
  · rw [commandReports_of_repeatable free]
    constructor
    · rintro ⟨_, listed, _⟩
      cases listed
    · rintro ⟨_, _, against⟩
      exact absurd against (not_contradicts_of_repeatable free)
  · rw [commandReports_of_plain free]
    cases found : (incompatibleCommands command.name).find? fun other => decide (other ∈ used) with
    | none =>
        rw [List.find?_eq_none] at found
        constructor
        · rintro ⟨diagnostic, listed, same⟩
          by_cases before : command.name ∈ used <;> simp [before] at listed
          rw [listed] at same
          cases same
        · rintro ⟨other, before, against⟩
          exact absurd (decide_eq_true before) (found other against)
    | some other =>
        have before : other ∈ used := by simpa using List.find?_some found
        have against : Contradicts command.name other := List.mem_of_find?_eq_some found
        constructor
        · exact fun _ => ⟨other, before, against⟩
        · exact fun _ => ⟨_, List.mem_append_right _ List.mem_cons_self, rfl⟩

/-- Every occurrence of a command but the first is reported, unless the command may be repeated. -/
theorem count_conflictReports (commands : List Command) : ∀ used : List String,
    (conflictReports file used commands).countP (fun diagnostic => decide (diagnostic.Repeats name)) =
      if Repeatable name then 0
      else if name ∈ used then (commands.map Command.name).count name
      else (commands.map Command.name).count name - 1 := by
  induction commands with
  | nil =>
      intro used
      simp [conflictReports]
  | cons command rest ih =>
      intro used
      rw [conflictReports, List.countP_append, count_commandReports, ih, List.map_cons, List.count_cons]
      by_cases free : Repeatable name
      · simp [free]
      by_cases same : command.name = name
      · subst same
        by_cases before : command.name ∈ used
        · simp [free, before, Nat.add_comm]
        · simp [free, before]
      · have other : name ≠ command.name := fun equal => same equal.symm
        simp [free, same, other]

/-- Contradicting commands are reported when the later one comes, whichever of them it is. -/
theorem exists_conflictReports (commands : List Command) : ∀ used : List String,
    (∃ diagnostic ∈ conflictReports file used commands, diagnostic.problem = .incompatibleCommands) ↔
      ∃ first ∈ commands.map Command.name, ∃ second ∈ used ++ commands.map Command.name,
        Contradicts first second := by
  induction commands with
  | nil =>
      intro used
      simp [conflictReports]
  | cons command rest ih =>
      intro used
      have split : (∃ diagnostic ∈ conflictReports file used (command :: rest),
            diagnostic.problem = .incompatibleCommands) ↔
          (∃ diagnostic ∈ commandReports file used command, diagnostic.problem = .incompatibleCommands) ∨
            ∃ diagnostic ∈ conflictReports file (used ++ [command.name]) rest,
              diagnostic.problem = .incompatibleCommands := by
        simp only [conflictReports, List.mem_append, or_and_right, exists_or]
      rw [split, exists_commandReports, ih, List.append_assoc, List.singleton_append, List.map_cons]
      constructor
      · rintro (⟨other, before, against⟩ | ⟨first, listed, second, within, against⟩)
        · exact ⟨command.name, List.mem_cons_self, other, List.mem_append_left _ before, against⟩
        · exact ⟨first, List.mem_cons_of_mem _ listed, second, within, against⟩
      · rintro ⟨first, listed, second, within, against⟩
        rcases List.mem_cons.mp listed with rfl | behind
        · rcases List.mem_append.mp within with before | after
          · exact Or.inl ⟨second, before, against⟩
          · -- The second command comes later, and is the one that is reported.
            have later : second ∈ rest.map Command.name := by
              rcases List.mem_cons.mp after with rfl | later
              · exact absurd rfl against.ne
              · exact later
            exact Or.inr ⟨second, later, command.name, List.mem_append_right _ List.mem_cons_self, against.symm⟩
        · exact Or.inr ⟨first, behind, second, within, against⟩

end Reports

/-- The reports say of commands with these names which of them are repeated and whether any contradict each other. -/
structure Judges (names : List String) (reports : List Diagnostic) : Prop where
  repeated : ∀ name, ¬Repeatable name →
    reports.countP (fun diagnostic => decide (diagnostic.Repeats name)) = names.count name - 1
  free : ∀ name, Repeatable name → ∀ diagnostic ∈ reports, ¬diagnostic.Repeats name
  incompatible : (∃ diagnostic ∈ reports, diagnostic.problem = .incompatibleCommands) ↔
    ("skip" ∈ names ∧ "more" ∈ names) ∨ (("skip" ∈ names ∨ "more" ∈ names) ∧ ("type" ∈ names ∨ "channel" ∈ names))

theorem exists_contradicts {names : List String} : (∃ first ∈ names, ∃ second ∈ names, Contradicts first second) ↔
    ("skip" ∈ names ∧ "more" ∈ names) ∨ (("skip" ∈ names ∨ "more" ∈ names) ∧ ("type" ∈ names ∨ "channel" ∈ names)) := by
  constructor
  · rintro ⟨first, one, second, other, against⟩
    rcases against.cases with ⟨rfl, rfl | rfl | rfl⟩ | ⟨rfl, rfl | rfl | rfl⟩ | ⟨rfl | rfl, rfl | rfl⟩ <;>
      simp [one, other]
  · rintro (⟨skip, more⟩ | ⟨skip | more, type | channel⟩)
    · exact ⟨_, skip, _, more, List.mem_cons_self⟩
    · exact ⟨_, type, _, skip, List.mem_cons_of_mem _ List.mem_cons_self⟩
    · exact ⟨_, channel, _, skip, List.mem_cons_of_mem _ List.mem_cons_self⟩
    · exact ⟨_, type, _, more, List.mem_cons_self⟩
    · exact ⟨_, channel, _, more, List.mem_cons_self⟩

theorem Rule.judges_conflicts (rule : Rule) (file : String) :
    Judges (rule.commands.map Command.name) (rule.conflicts file) where
  repeated name plain := by
    rw [Rule.conflicts, count_conflictReports, if_neg plain, if_neg List.not_mem_nil]
  free name repeatable := by
    have none : (rule.conflicts file).countP (fun diagnostic => decide (diagnostic.Repeats name)) = 0 := by
      rw [Rule.conflicts, count_conflictReports, if_pos repeatable]
    rw [List.countP_eq_zero] at none
    exact fun diagnostic listed repeats => none diagnostic listed (decide_eq_true repeats)
  incompatible := by
    rw [Rule.conflicts, exists_conflictReports, List.nil_append]
    exact exists_contradicts

-- The channel comes after what it contradicts; then the repeated command comes after the channel.
example : (conflictReports "L.g4" [] [{ name := "skip" }, { name := "channel" }, { name := "skip" }]).map
    Diagnostic.arguments = [["skip", "channel"], ["skip"], ["channel", "skip"]] := by
  decide

/-- What is reported of the commands of a lexer is reported of each rule by itself, and judges its commands. -/
theorem Plan.run_conflicts (plan : Plan) (journal : Journal) :
    match plan.kind, plan.run journal with
    | .lexer, .ok _ after =>
        after.journal.conflicts = journal.conflicts ++
            plan.grammar.rules.toList.flatMap (fun rule => rule.conflicts plan.grammar.fileName) ∧
          ∀ rule ∈ plan.grammar.rules,
            Judges (rule.commands.map Command.name) (rule.conflicts plan.grammar.fileName)
    | _, _ => True := by
  split
  · rename_i lexer ends
    obtain ⟨_, _, completion⟩ := Plan.completes_of_run ends
    exact ⟨(completion.dispatched lexer).conflicts, fun rule _ => rule.judges_conflicts _⟩
  · trivial

end GrammarNetwork
