import GrammarNetwork.Proofs.SetParts

/-! The items of a lexer set. Each adds at most one part to the set, and what is wrong with it is reported; one that cannot
stand in a set ends the construction behind the reports of the items before it. -/

namespace GrammarNetwork

open Literal

/-- What a lexer set takes from one of its items. -/
def Element.setPart? (ignoring : Bool) (item : Element) : Option SetPart :=
  match item.form with
  | .range first last => (Build.rangeEnds first last).map fun ends => .range ends.1 ends.2
  | .charSet text => some (.set ((readCharSet text).symbols ignoring))
  | .literal text => (charValue? text).map fun code : Nat => .codePoint code
  | _ => none

/-- The item can stand in a lexer set. -/
def Element.isSetItem (item : Element) : Bool :=
  (Build.itemFaults item).isEmpty

namespace Build

variable {α β : Type} {plan : Plan} {ignoring : Bool} {position outer : Option Position} {root : String}

/-- What is wrong with the ends of a range. -/
def endsReports (plan : Plan) (position : Option Position) (first last : String) : List Diagnostic :=
  (if (charValue? first).isNone then [diagnostic plan .invalidLiteralInLexerSet position [first]] else []) ++
  ((if (charValue? last).isNone then [diagnostic plan .invalidLiteralInLexerSet position [last]] else []) ++
    match charValue? first, charValue? last with
    | some low, some high =>
        if high < low then [diagnostic plan .emptyLiteral position [first ++ ".." ++ last]] else []
    | _, _ => [])

theorem tells_rangeEnds? (first last : String) :
    Tells plan ignoring (rangeEnds? plan first last position) (rangeEnds first last)
      (endsReports plan position first last) := by
  unfold rangeEnds?
  refine (tells_report _ _).when _ ((tells_report _ _).when _ ?_)
  unfold rangeEnds
  cases charValue? first with
  | none => exact tells_pure _
  | some low =>
      cases charValue? last with
      | none => exact tells_pure _
      | some high =>
          by_cases reversed : high < low
          · simp only [if_pos reversed]
            exact (tells_report _ _).map fun _ => none
          · simp only [if_neg reversed]
            exact tells_pure _

theorem rangeEnds_ascend {first last : String} {ends : Int × Int} (found : rangeEnds first last = some ends) :
    ends.1 ≤ ends.2 := by
  unfold rangeEnds at found
  repeat' split at found
  all_goals cases found
  omega

/-- What is reported of an item by itself. -/
def itemReports (plan : Plan) (ignoring : Bool) (outer : Option Position) (item : Element) : List Diagnostic :=
  let position := item.position.or outer
  match item.form with
  | .range first last => endsReports plan position first last
  | .charSet text => charSetReports plan ignoring text item.position (readCharSet text)
  | .literal text =>
      if (charValue? text).isNone then [diagnostic plan .invalidLiteralInLexerSet position [text]] else []
  | .token name => [diagnostic plan .referenceInLexerSet position [name]]
  | _ => []

theorem tells_addSetItem (set : IntervalSet) {item : Element} (allowed : item.isSetItem = true) :
    Tells plan ignoring (addSetItem plan root outer set item)
      (set.insertAll ((item.setPart? ignoring).toList.flatMap (SetPart.forms ignoring)))
      (itemReports plan ignoring outer item ++
        partsReports plan ignoring root (item.position.or outer) set (item.setPart? ignoring).toList) := by
  obtain ⟨form, place⟩ := item
  cases form with
  | range first last =>
      simp only [addSetItem, itemReports, Element.setPart?]
      refine (tells_rangeEnds? first last).bind ?_
      cases found : rangeEnds first last with
      | none => exact tells_pure _
      | some ends =>
          have ascends := rangeEnds_ascend found
          simp only [Option.map_some, Option.toList_some, List.flatMap_singleton, partsReports, partReports,
            if_neg (Int.not_lt.mpr ascends), List.nil_append, List.append_nil]
          exact tells_addRange set ends.1 ends.2
  | charSet text =>
      simp only [addSetItem, itemReports, Element.setPart?]
      refine (tells_charSet text).bind ?_
      simp only [Option.toList_some, List.flatMap_singleton]
      exact tells_pure _
  | literal text =>
      simp only [addSetItem, itemReports, Element.setPart?]
      cases charValue? text with
      | none => exact (tells_report _ _).map fun _ => set
      | some code =>
          simp only [Option.map_some, Option.toList_some, List.flatMap_singleton, partsReports, partReports,
            Option.isNone_some, List.append_nil]
          exact tells_addRange set code code
  | token name => exact (tells_report _ _).map fun _ => set
  | _ => cases allowed

/-- What is reported of the items one after the other. -/
def itemsReports (plan : Plan) (ignoring : Bool) (root : String) (outer : Option Position) :
    IntervalSet → List Element → List Diagnostic
  | _, [] => []
  | set, item :: rest =>
      itemReports plan ignoring outer item ++
        partsReports plan ignoring root (item.position.or outer) set (item.setPart? ignoring).toList ++
        itemsReports plan ignoring root outer
          (set.insertAll ((item.setPart? ignoring).toList.flatMap (SetPart.forms ignoring))) rest

theorem filterMap_setPart? (item : Element) (rest : List Element) :
    (item :: rest).filterMap (Element.setPart? ignoring) =
      (item.setPart? ignoring).toList ++ rest.filterMap (Element.setPart? ignoring) := by
  cases found : item.setPart? ignoring <;> simp [found]

theorem tells_addSetItems (items : List Element) : ∀ {set : IntervalSet}, (∀ item ∈ items, item.isSetItem = true) →
    Tells plan ignoring (addSetItems plan root outer set items)
      (set.insertAll ((items.filterMap (Element.setPart? ignoring)).flatMap (SetPart.forms ignoring)))
      (itemsReports plan ignoring root outer set items) := by
  induction items with
  | nil => exact fun _ => tells_pure _
  | cons item rest ih =>
      intro set allowed
      obtain ⟨first, others⟩ := List.forall_mem_cons.mp allowed
      rw [filterMap_setPart?, List.flatMap_append, IntervalSet.insertAll_append]
      exact (tells_addSetItem set first).bind (ih others)

/-- The step reports these diagnostics and fails. -/
def Breaks (plan : Plan) (ignoring : Bool) (step : Build α) (told : List Diagnostic) : Prop :=
  ∀ before : Construction, before.ignoresCase plan = ignoring →
    ∃ failure, step before = .error failure (before.tell told)

theorem Breaks.bind {step : Build α} {told : List Diagnostic} (breaks : Breaks plan ignoring step told)
    (next : α → Build β) : Breaks plan ignoring (step >>= next) told := by
  intro before mode
  obtain ⟨failure, broken⟩ := breaks before mode
  exact ⟨failure, by simp [Bind.bind, EStateM.bind, broken]⟩

theorem Tells.breaks {step : Build α} {next : α → Build β} {value : α} {told more : List Diagnostic}
    (first : Tells plan ignoring step value told) (second : Breaks plan ignoring (next value) more) :
    Breaks plan ignoring (step >>= next) (told ++ more) := by
  intro before mode
  obtain ⟨failure, broken⟩ := second (before.tell told) mode
  refine ⟨failure, ?_⟩
  rw [Construction.tell_tell] at broken
  simp [Bind.bind, EStateM.bind, first before mode, broken]

theorem breaks_addSetItem (set : IntervalSet) {item : Element} (refused : item.isSetItem = false) :
    Breaks plan ignoring (addSetItem plan root outer set item)
      [diagnostic plan .internalError none [(Inconsistency.setItem item.kindName).message]] := by
  obtain ⟨form, place⟩ := item
  cases form with
  | range first last => cases refused
  | charSet text => cases refused
  | literal text => cases refused
  | token name => cases refused
  | _ => exact fun before _ => ⟨_, rfl⟩

/-- The construction ends at the first item that cannot stand in the set. -/
theorem breaks_addSetItems {other : Element} (refused : other.isSetItem = false) (items : List Element) :
    ∀ {set : IntervalSet}, other ∈ items → ∃ cause : Inconsistency,
      Breaks plan ignoring (addSetItems plan root outer set items)
        (itemsReports plan ignoring root outer set (items.takeWhile Element.isSetItem) ++
          [diagnostic plan .internalError none [cause.message]]) := by
  induction items with
  | nil => exact fun listed => by cases listed
  | cons item rest ih =>
      intro set listed
      cases allowed : item.isSetItem with
      | false =>
          rw [List.takeWhile_cons_of_neg (by simp [allowed])]
          exact ⟨_, (breaks_addSetItem set allowed).bind _⟩
      | true =>
          have later : other ∈ rest := by
            refine (List.mem_cons.mp listed).resolve_left ?_
            rintro rfl
            rw [allowed] at refused
            cases refused
          obtain ⟨cause, breaks⟩ := ih later
          rw [List.takeWhile_cons_of_pos allowed, itemsReports]
          refine ⟨cause, ?_⟩
          rw [List.append_assoc]
          exact (tells_addSetItem set allowed).breaks breaks

end Build

end GrammarNetwork
