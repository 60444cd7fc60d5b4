import GrammarNetwork.Proofs.Ranges
import GrammarNetwork.Proofs.SetItems

/-! Collisions in sets. When a code point or range is added to a set, its case forms are compared one after the other with
what is there: the characters of the items before it, and those of its own form before. -/

namespace GrammarNetwork

open Literal

namespace SetPart

variable {ignoring : Bool}

/-- The ranges of a part that are compared with what is there. -/
def spans (ignoring : Bool) : SetPart → List Interval
  | .set _ => []
  | part => part.forms ignoring

/-- The span has a character of an earlier part or of the spans before it. -/
def Meets (ignoring : Bool) (earlier : List SetPart) (before : List Interval) (span : Interval) : Prop :=
  ∃ value, span.first ≤ value ∧ value ≤ span.last ∧
    (Interval.Covers before value ∨ ∃ part ∈ earlier, Interval.Covers (part.forms ignoring) value)

theorem meetsRange_gathered {earlier : List SetPart} {before : List Interval} {span : Interval} :
    ((gathered ignoring earlier).insertAll before).meetsRange span.first span.last = true ↔
      Meets ignoring earlier before span := by
  simp only [IntervalSet.meetsRange_iff, IntervalSet.contains_insertAll, contains_gathered, Meets, Interval.Covers]

instance (earlier : List SetPart) (before : List Interval) (span : Interval) :
    Decidable (Meets ignoring earlier before span) :=
  decidable_of_iff _ meetsRange_gathered

/-- The first span that meets an earlier part or the spans before it. -/
def clash? (ignoring : Bool) (earlier : List SetPart) : (before spans : List Interval) → Option Interval
  | _, [] => none
  | before, span :: rest =>
      if Meets ignoring earlier before span then some span else clash? ignoring earlier (before ++ [span]) rest

/-- The spans that meet what is there, at most one for each part, in the order of the parts. -/
def clashes (ignoring : Bool) : (earlier parts : List SetPart) → List Interval
  | _, [] => []
  | earlier, part :: rest =>
      (clash? ignoring earlier [] (part.spans ignoring)).toList ++ clashes ignoring (earlier ++ [part]) rest

theorem firstClash_gathered (earlier : List SetPart) (spans : List Interval) : ∀ before : List Interval,
    Build.firstClash ((gathered ignoring earlier).insertAll before) spans = clash? ignoring earlier before spans := by
  induction spans with
  | nil => exact fun _ => rfl
  | cons span rest ih =>
      intro before
      have grown : ((gathered ignoring earlier).insertAll before).insertRange span.first span.last =
          (gathered ignoring earlier).insertAll (before ++ [span]) := (IntervalSet.insertAll_append _ _ [span]).symm
      rw [Build.firstClash, clash?, grown, ih]
      simp only [meetsRange_gathered]

theorem length_spans (part : SetPart) : (part.spans ignoring).length ≤ 2 := by
  have formed (first last : Int) : (Unicode.CaseRange.forms ignoring first last).length ≤ 2 := by
    unfold Unicode.CaseRange.forms
    simp only
    split <;> simp
  cases part with
  | codePoint code => exact formed code code
  | range first last => exact formed first last
  | set symbols => exact Nat.zero_le 2

/-- A part that is the first one collides exactly if its two case forms have a character in common. -/
theorem clash?_alone {part : SetPart} {span : Interval} :
    clash? ignoring [] [] (part.spans ignoring) = some span ↔ ∃ other, part.spans ignoring = [other, span] ∧
      ∃ value, (span.first ≤ value ∧ value ≤ span.last) ∧ other.first ≤ value ∧ value ≤ other.last := by
  have first (span : Interval) : ¬Meets ignoring [] [] span := by
    simp [Meets]
  have second (other span : Interval) : Meets ignoring [] [other] span ↔
      ∃ value, (span.first ≤ value ∧ value ≤ span.last) ∧ other.first ≤ value ∧ value ≤ other.last := by
    simp [Meets, and_assoc]
  have two : (part.spans ignoring).length ≤ 2 := length_spans part
  match part.spans ignoring, two with
  | [], _ => simp [clash?]
  | [only], _ => simp [clash?, first]
  | [lower, upper], _ =>
      simp only [clash?, if_neg (first lower), List.nil_append, List.cons.injEq, and_true]
      split
      · rename_i meets
        rw [Option.some.injEq]
        constructor
        · rintro rfl
          exact ⟨lower, ⟨rfl, rfl⟩, (second lower upper).mp meets⟩
        · rintro ⟨_, ⟨_, same⟩, _⟩
          exact same
      · rename_i apart
        refine iff_of_false (fun none => by cases none) ?_
        rintro ⟨_, ⟨rfl, rfl⟩, overlap⟩
        exact apart ((second lower upper).mpr overlap)

end SetPart

/-- The collisions among the diagnostics. -/
def Build.collisionsIn (told : List Diagnostic) : List Diagnostic :=
  told.filter fun diagnostic => diagnostic.problem = .collisionInSet

namespace Build

variable {plan : Plan} {ignoring : Bool} {position outer : Option Position} {root : String} {set : IntervalSet}

theorem collisionsIn_append (first second : List Diagnostic) :
    collisionsIn (first ++ second) = collisionsIn first ++ collisionsIn second :=
  List.filter_append first second

/-- Another problem that is reported under a condition is no collision. -/
theorem collisionsIn_ite (condition : Prop) [Decidable condition] {problem : Problem} {arguments : List String}
    (other : problem ≠ .collisionInSet) :
    collisionsIn (if condition then [diagnostic plan problem position arguments] else []) = [] := by
  unfold collisionsIn diagnostic
  split <;> simp [other]

theorem collisionsIn_strayReports (range : Unicode.CaseRange) :
    collisionsIn (strayReports plan position range) = [] := by
  unfold strayReports
  split <;> rfl

theorem collisionsIn_rangeReports (earlier : List SetPart) (first last : Int) :
    collisionsIn (rangeReports plan ignoring root position (SetPart.gathered ignoring earlier) first last) =
      (SetPart.clash? ignoring earlier [] (Unicode.CaseRange.forms ignoring first last)).toList.map
        (collision plan position root) := by
  have found : firstClash (SetPart.gathered ignoring earlier) (Unicode.CaseRange.forms ignoring first last) = _ :=
    SetPart.firstClash_gathered earlier (Unicode.CaseRange.forms ignoring first last) []
  rw [rangeReports, collisionsIn_append, collisionsIn_strayReports, List.nil_append, found]
  cases SetPart.clash? ignoring earlier [] (Unicode.CaseRange.forms ignoring first last) <;> rfl

theorem collisionsIn_partReports (earlier : List SetPart) (part : SetPart) :
    collisionsIn (partReports plan ignoring root position (SetPart.gathered ignoring earlier) part) =
      (SetPart.clash? ignoring earlier [] (part.spans ignoring)).toList.map (collision plan position root) := by
  cases part with
  | codePoint code => exact collisionsIn_rangeReports earlier code code
  | range first last =>
      rw [partReports, collisionsIn_append, collisionsIn_ite _ (by decide)]
      exact collisionsIn_rangeReports earlier first last
  | set symbols => rfl

theorem collisionsIn_partsReports (parts : List SetPart) : ∀ earlier : List SetPart,
    collisionsIn (partsReports plan ignoring root position (SetPart.gathered ignoring earlier) parts) =
      (SetPart.clashes ignoring earlier parts).map (collision plan position root) := by
  induction parts with
  | nil => exact fun _ => rfl
  | cons part rest ih =>
      intro earlier
      have grown : (SetPart.gathered ignoring earlier).insertAll (part.forms ignoring) =
          SetPart.gathered ignoring (earlier ++ [part]) := by
        rw [SetPart.gathered_append, List.flatMap_singleton]
      rw [partsReports, collisionsIn_append, collisionsIn_partReports, grown, ih, SetPart.clashes, List.map_append]

theorem collisionsIn_charSetReports (text : String) :
    collisionsIn (charSetReports plan ignoring text position (readCharSet text)) =
      (SetPart.clashes ignoring [] (readCharSet text).added).map (collision plan position text) := by
  have rest : collisionsIn (closingReports plan ignoring text position (readCharSet text)) = [] := by
    unfold closingReports
    split
    · cases ‹CharSetFlaw› <;> rfl
    · exact collisionsIn_ite _ (by decide)
  rw [charSetReports, collisionsIn_append, rest, List.append_nil]
  exact collisionsIn_partsReports (readCharSet text).added []

/-- The collisions inside an item, which are those of a character set. -/
def itemCollisions (plan : Plan) (ignoring : Bool) (item : Element) : List Diagnostic :=
  match item.form with
  | .charSet text =>
      (SetPart.clashes ignoring [] (readCharSet text).added).map (collision plan item.position text)
  | _ => []

/-- The collisions of a lexer set: those inside an item, and that of an item with what is there. -/
def setCollisions (plan : Plan) (ignoring : Bool) (root : String) (outer : Option Position) :
    (earlier : List SetPart) → List Element → List Diagnostic
  | _, [] => []
  | earlier, item :: rest =>
      itemCollisions plan ignoring item ++
        (SetPart.clashes ignoring earlier (item.setPart? ignoring).toList).map
          (collision plan (item.position.or outer) root) ++
        setCollisions plan ignoring root outer (earlier ++ (item.setPart? ignoring).toList) rest

theorem collisionsIn_itemReports (item : Element) :
    collisionsIn (itemReports plan ignoring outer item) = itemCollisions plan ignoring item := by
  obtain ⟨form, place⟩ := item
  cases form with
  | range first last =>
      simp only [itemReports, itemCollisions, endsReports, collisionsIn_append]
      rw [collisionsIn_ite _ (by decide), collisionsIn_ite _ (by decide)]
      split
      · exact collisionsIn_ite _ (by decide)
      · rfl
  | charSet text => exact collisionsIn_charSetReports text
  | literal text =>
      exact collisionsIn_ite _ (by decide)
  | _ => rfl

theorem collisionsIn_itemsReports (items : List Element) : ∀ earlier : List SetPart,
    collisionsIn (itemsReports plan ignoring root outer (SetPart.gathered ignoring earlier) items) =
      setCollisions plan ignoring root outer earlier items := by
  induction items with
  | nil => exact fun _ => rfl
  | cons item rest ih =>
      intro earlier
      rw [itemsReports, collisionsIn_append, collisionsIn_append, collisionsIn_itemReports, collisionsIn_partsReports,
        ← SetPart.gathered_append, ih, setCollisions]

/-- A lexer set ends before the first item that cannot stand in it. -/
theorem addSetItems_reports (plan : Plan) (root : String) (position : Option Position) (items : List Element)
    (before : Construction) : ∃ told : List Diagnostic,
      ((∃ set, addSetItems plan root position .empty items before = .ok set (before.tell told)) ∨
        ∃ failure, addSetItems plan root position .empty items before = .error failure (before.tell told)) ∧
      collisionsIn told =
        setCollisions plan (before.ignoresCase plan) root position [] (items.takeWhile Element.isSetItem) := by
  have collisions := @collisionsIn_itemsReports plan (before.ignoresCase plan) position root
    (items.takeWhile Element.isSetItem) []
  by_cases allowed : ∀ item ∈ items, item.isSetItem = true
  · have tells : Tells plan (before.ignoresCase plan) (addSetItems plan root position .empty items) _ _ :=
      tells_addSetItems items allowed
    rw [List.takeWhile_eq_self_iff.mpr allowed] at collisions ⊢
    exact ⟨_, Or.inl ⟨_, tells before rfl⟩, collisions⟩
  · push Not at allowed
    obtain ⟨item, listed, refused⟩ := allowed
    obtain ⟨cause, breaks⟩ := @breaks_addSetItems plan (before.ignoresCase plan) position root item
      (Bool.eq_false_iff.mpr refused) items .empty listed
    refine ⟨_, Or.inr (breaks before rfl), ?_⟩
    rw [collisionsIn_append]
    exact (congrArg (· ++ _) collisions).trans (List.append_nil _)

/-- A collision is reported for each part of a character set or lexer set that has a character in common with a part
before it, and for each whose two case forms have one in common, even where it is the only part. -/
theorem collisions_named (plan : Plan) (position : Option Position) (before : Construction) :
    (∀ text, ∃ told,
      charSet plan text position before =
        .ok ((readCharSet text).symbols (before.ignoresCase plan)) (before.tell told) ∧
      collisionsIn told = (SetPart.clashes (before.ignoresCase plan) [] (readCharSet text).added).map
        (collision plan position text)) ∧
    (∀ root items, ∃ told,
      ((∃ set, addSetItems plan root position .empty items before = .ok set (before.tell told)) ∨
        ∃ failure, addSetItems plan root position .empty items before = .error failure (before.tell told)) ∧
      collisionsIn told =
        setCollisions plan (before.ignoresCase plan) root position [] (items.takeWhile Element.isSetItem)) ∧
    ∀ (part : SetPart) (span : Interval),
      SetPart.clashes (before.ignoresCase plan) [] [part] = [span] ↔
        ∃ other, part.spans (before.ignoresCase plan) = [other, span] ∧
          ∃ value, (span.first ≤ value ∧ value ≤ span.last) ∧ other.first ≤ value ∧ value ≤ other.last := by
  refine ⟨fun text => ⟨_, tells_charSet text before rfl, collisionsIn_charSetReports text⟩,
    fun root items => addSetItems_reports plan root position items before, fun part span => ?_⟩
  rw [← SetPart.clash?_alone]
  simp [SetPart.clashes]

/-- Of the range in `[ā-ă]` both case forms have the character `ā`, which is reported though there is no other part. -/
theorem lone_range_collides :
    (readCharSet "[ā-ă]").added = [.range 0x101 0x103] ∧
    ∃ set, charSet caseInsensitiveLexer "[ā-ă]" none (blank 0) =
      .ok set ((blank 0).tell [⟨.collisionInSet, "L.g4", none, ["Ā-Ă", "[ā-ă]"]⟩]) := by
  have reported : charSetReports caseInsensitiveLexer true "[ā-ă]" none (readCharSet "[ā-ă]") =
      [⟨.collisionInSet, "L.g4", none, ["Ā-Ă", "[ā-ă]"]⟩] := by decide +kernel
  have told : Tells caseInsensitiveLexer true (charSet caseInsensitiveLexer "[ā-ă]" none) _ _ :=
    tells_charSet "[ā-ă]"
  rw [reported] at told
  exact ⟨by decide +kernel, _, told (blank 0) rfl⟩

end Build

end GrammarNetwork
