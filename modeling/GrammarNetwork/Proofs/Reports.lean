import GrammarNetwork.Proofs.CaseForms
import GrammarNetwork.Proofs.CharSets
import GrammarNetwork.Proofs.Words

/-! Reports: what the steps that work out characters report, in the order in which they do. -/

namespace GrammarNetwork

/-- Whether letters are matched in both cases where the construction is. -/
def Construction.ignoresCase (plan : Plan) (construction : Construction) : Bool :=
  (construction.rule.map (Build.ignoresCase plan)).getD false

/-- The construction with further diagnostics in its journal. -/
def Construction.tell (construction : Construction) (told : List Diagnostic) : Construction :=
  { construction with journal := told.foldl Journal.report construction.journal }

theorem Construction.tell_tell (construction : Construction) (first second : List Diagnostic) :
    (construction.tell first).tell second = construction.tell (first ++ second) := by
  simp [tell]

namespace Build

open Unicode

variable {α β : Type} {plan : Plan} {ignoring : Bool} {position : Option Position} {root : String}

/-- The step gives this value and reports these diagnostics, and it does nothing else. -/
def Tells (plan : Plan) (ignoring : Bool) (step : Build α) (value : α) (told : List Diagnostic) : Prop :=
  ∀ before : Construction, before.ignoresCase plan = ignoring → step before = .ok value (before.tell told)

theorem tells_pure (value : α) : Tells plan ignoring (pure value) value [] :=
  fun _ _ => rfl

theorem Tells.bind {step : Build α} {next : α → Build β} {value : α} {result : β} {told more : List Diagnostic}
    (first : Tells plan ignoring step value told) (second : Tells plan ignoring (next value) result more) :
    Tells plan ignoring (step >>= next) result (told ++ more) := by
  intro before mode
  have stepped := first before mode
  have finished := second (before.tell told) mode
  rw [Construction.tell_tell] at finished
  simp [Bind.bind, EStateM.bind, stepped, finished]

/-- A step that reports nothing comes last. -/
theorem Tells.map {step : Build α} {value : α} {told : List Diagnostic} (first : Tells plan ignoring step value told)
    (next : α → β) : Tells plan ignoring (step >>= fun value => pure (next value)) (next value) told := by
  rw [← List.append_nil told]
  exact first.bind (tells_pure _)

theorem Tells.of_eq {step : Build α} {value : α} {told more : List Diagnostic}
    (tells : Tells plan ignoring step value told) (same : told = more) : Tells plan ignoring step value more :=
  same ▸ tells

/-- A step that is done only under a condition comes first. -/
theorem Tells.when {step : Build Unit} {next : Unit → Build β} {result : β} {told more : List Diagnostic}
    (first : Tells plan ignoring step () told) (condition : Prop) [Decidable condition]
    (second : Tells plan ignoring (next ()) result more) :
    Tells plan ignoring (if condition then step >>= next else next ()) result
      ((if condition then told else []) ++ more) := by
  by_cases holds : condition
  · rw [if_pos holds, if_pos holds]
    exact first.bind second
  · rw [if_neg holds, if_neg holds]
    exact second

theorem Tells.answer {step : Build α} {value : α} {told : List Diagnostic} {index : Nat}
    (tells : Tells plan (ignoresCase plan index) step value told) : answer? index step = some value := by
  simp [answer?, tells (blank index) rfl]

/-- A problem of the grammar at this place. -/
def diagnostic (plan : Plan) (problem : Problem) (position : Option Position) (arguments : List String) : Diagnostic :=
  ⟨problem, plan.grammar.fileName, position, arguments⟩

theorem tells_report (problem : Problem) (arguments : List String) :
    Tells plan ignoring (report plan problem position arguments) () [diagnostic plan problem position arguments] :=
  fun _ _ => rfl

theorem tells_isCaseInsensitive : Tells plan ignoring (isCaseInsensitive plan) ignoring [] := by
  rintro before rfl
  rw [show isCaseInsensitive plan before = .ok (((before.rule.bind fun index => plan.grammar.rules[index]?).map
        plan.grammar.isCaseInsensitive).getD false) before from rfl]
  unfold Construction.ignoresCase
  cases before.rule <;> rfl

/-- What is reported of the characters in a range of mixed case that are no letters. -/
def strayReports (plan : Plan) (position : Option Position) (range : CaseRange) : List Diagnostic :=
  if range.strays = [] then []
  else [diagnostic plan .strayCharactersInRange position
    [codePointText range.first, codePointText range.last, String.ofList range.strays]]

theorem tells_reportStrays (range : CaseRange) :
    Tells plan ignoring (reportStrays plan range position) () (strayReports plan position range) := by
  unfold reportStrays strayReports
  split
  · rename_i none
    rw [if_pos none]
    exact tells_pure _
  · rename_i some
    rw [if_neg some]
    exact tells_report _ _

theorem strays_of_not_mixedCase {range : CaseRange} (plain : range.mixedCase = false) : range.strays = [] := by
  simp [CaseRange.strays, plain]

theorem tells_addExactRange (set : IntervalSet) (first last : Int) (previous : Option RangeStatus) :
    Tells plan ignoring (addExactRange plan root position set first last previous)
      (set.insertRange first last,
        ⟨previous.any RangeStatus.collision || !previous.any RangeStatus.collision && set.meetsRange first last,
          (CaseRange.classify first last).mixedCase⟩)
      ((if !previous.any RangeStatus.mixedCase then strayReports plan position (CaseRange.classify first last)
        else []) ++
        if !previous.any RangeStatus.collision && set.meetsRange first last then
          [collision plan position root ⟨first, last⟩]
        else []) := by
  unfold addExactRange
  refine (tells_reportStrays _).when _ ?_
  rw [← List.append_nil (ite _ [_] [])]
  exact (tells_report _ _).when _ (tells_pure _)

/-- The case form of a range has no stray characters of its own to report. -/
theorem tells_addForm (set : IntervalSet) (first last : Int) {previous : RangeStatus}
    (known : previous.mixedCase = true ∨ (CaseRange.classify first last).strays = []) :
    Tells plan ignoring (addExactRange plan root position set first last (some previous))
      (set.insertRange first last,
        ⟨previous.collision || !previous.collision && set.meetsRange first last,
          (CaseRange.classify first last).mixedCase⟩)
      (if !previous.collision && set.meetsRange first last then [collision plan position root ⟨first, last⟩]
        else []) := by
  have adds : Tells plan ignoring (addExactRange plan root position set first last (some previous)) _ _ :=
    tells_addExactRange set first last (some previous)
  have quiet : (if !(some previous).any RangeStatus.mixedCase then
      strayReports plan position (CaseRange.classify first last) else []) = [] := by
    rcases known with mixed | none
    · simp [mixed]
    · simp [strayReports, none]
  rwa [quiet] at adds

/-- The first of the ranges that meets the set or a range before it. -/
def firstClash (set : IntervalSet) : List Interval → Option Interval
  | [] => none
  | range :: rest =>
      if set.meetsRange range.first range.last then some range
      else firstClash (set.insertRange range.first range.last) rest

/-- What is reported when a range is added to a set: stray characters, and its first case form that meets what is
there. -/
def rangeReports (plan : Plan) (ignoring : Bool) (root : String) (position : Option Position) (set : IntervalSet)
    (first last : Int) : List Diagnostic :=
  strayReports plan position (CaseRange.classify first last) ++
    (firstClash set (CaseRange.forms ignoring first last)).toList.map (collision plan position root)

theorem tells_addRange (set : IntervalSet) (first last : Int) :
    Tells plan ignoring (addRange plan root position set first last)
      (set.insertAll (CaseRange.forms ignoring first last))
      (rangeReports plan ignoring root position set first last) := by
  unfold addRange
  refine tells_isCaseInsensitive.bind ?_
  cases ignoring with
  | false =>
      refine ((tells_addExactRange set first last none).map Prod.fst).of_eq ?_
      simp only [CaseRange.forms_false, firstClash]
      cases set.meetsRange first last <;> rfl
  | true =>
      refine (tells_reportStrays _).bind ?_
      cases single : (CaseRange.classify first last).isSingle with
      | true =>
          have known : (CaseRange.classify first last).mixedCase = true ∨
              (CaseRange.classify first last).strays = [] := by
            cases mixed : (CaseRange.classify first last).mixedCase with
            | true => exact Or.inl rfl
            | false => exact Or.inr (strays_of_not_mixedCase mixed)
          rw [CaseRange.forms_of_single single]
          refine ((tells_addForm set first last known).map Prod.fst).of_eq ?_
          simp only [firstClash]
          cases set.meetsRange first last <;> rfl
      | false =>
          have lower : (CaseRange.classify (toLower first) (toLower last)).strays = [] :=
            CaseRange.strays_lower first last
          have upper : (CaseRange.classify (toUpper first) (toUpper last)).strays = [] :=
            CaseRange.strays_upper single
          rw [CaseRange.forms_of_split single]
          refine ((tells_addForm set _ _ (Or.inr lower)).bind
            ((tells_addForm _ _ _ (Or.inr upper)).map Prod.fst)).of_eq ?_
          simp only [firstClash]
          cases set.meetsRange (toLower first) (toLower last) with
          | true => rfl
          | false =>
              cases (set.insertRange (toLower first) (toLower last)).meetsRange (toUpper first) (toUpper last) <;> rfl

/-- What a range of characters matches, in both cases or as it is. -/
def formsLabel (ignoring : Bool) (first last : Int) : Label :=
  let range := CaseRange.classify first last
  if ignoring && !range.isSingle then
    .set ((IntervalSet.ofRange range.lowerFirst range.lowerLast).insertRange range.upperFirst range.upperLast)
  else
    rangeLabel first last

theorem rangeSymbol_eq_formsLabel (plan : Plan) (index : Nat) (first last : Int) :
    rangeSymbol plan index first last = formsLabel (ignoresCase plan index) first last := rfl

theorem tells_rangeTransition (target : StateId) (first last : Int) :
    Tells plan ignoring (rangeTransition plan target first last position) ⟨target, formsLabel ignoring first last⟩
      (strayReports plan position (CaseRange.classify first last)) := by
  rw [← List.append_nil (strayReports plan position _)]
  refine (tells_reportStrays _).bind (tells_isCaseInsensitive.bind ?_)
  simp only [formsLabel]
  split <;> exact tells_pure _

end Build

theorem emits_rangeLabel {vocabulary : IntervalSet} {action : Option LexerAction} {first last value : Int} :
    (rangeLabel first last).Emits vocabulary action [.symbol value] ↔ first ≤ value ∧ value ≤ last := by
  unfold rangeLabel
  split
  · rename_i same
    subst same
    simp only [Label.Emits, List.cons.injEq, Letter.symbol.injEq, and_true]
    omega
  · simp only [Label.Emits, List.cons.injEq, Letter.symbol.injEq, and_true]
    constructor
    · rintro ⟨_, lower, upper, rfl⟩
      exact ⟨lower, upper⟩
    · rintro ⟨lower, upper⟩
      exact ⟨value, lower, upper, rfl⟩

theorem emits_set {vocabulary symbols : IntervalSet} {action : Option LexerAction} {value : Int} :
    (Label.set symbols).Emits vocabulary action [.symbol value] ↔ symbols.contains value = true := by
  simp only [Label.Emits, List.cons.injEq, Letter.symbol.injEq, and_true]
  constructor
  · rintro ⟨_, member, rfl⟩
    exact member
  · intro member
    exact ⟨value, member, rfl⟩

theorem Build.emits_formsLabel {vocabulary : IntervalSet} {action : Option LexerAction} {ignoring : Bool}
    {first last value : Int} : (formsLabel ignoring first last).Emits vocabulary action [.symbol value] ↔
      Interval.Covers (Unicode.CaseRange.forms ignoring first last) value := by
  simp only [formsLabel, Unicode.CaseRange.forms]
  split
  · rw [emits_set, IntervalSet.contains_insertRange, IntervalSet.contains_ofRange, or_comm]
    simp
  · rw [emits_rangeLabel]
    simp

end GrammarNetwork
