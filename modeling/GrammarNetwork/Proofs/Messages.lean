import Mathlib.Data.List.Infix
import GrammarNetwork.Diagnostic

/-! The messages of problems. A message is filled in by three passes over a growing text; here it is compared
with one pass over the template, in which nothing that was put in is looked at again. -/

namespace GrammarNetwork

/-- Whether a pattern opens a text does not depend on what follows it, if that begins with a letter that the
pattern does not have. -/
theorem isPrefixOf_append_eq {pattern : List Char} (first : List Char) {second : List Char}
    (apart : ∀ character ∈ second.head?, character ∉ pattern) :
    pattern.isPrefixOf (first ++ second) = pattern.isPrefixOf first := by
  rw [Bool.eq_iff_iff, List.isPrefixOf_iff_prefix, List.isPrefixOf_iff_prefix]
  refine ⟨fun opens => ?_, fun opens => opens.trans (List.prefix_append first second)⟩
  rcases Nat.le_total pattern.length first.length with short | long
  · exact List.prefix_of_prefix_length_le opens (List.prefix_append first second) short
  -- a pattern that goes beyond the first text has the head of the second one
  · obtain ⟨beyond, rfl⟩ := List.prefix_of_prefix_length_le (List.prefix_append first second) opens long
    rw [List.prefix_append_right_inj] at opens
    cases beyond with
    | nil => simp
    | cons character beyond =>
      obtain ⟨rest, rfl⟩ := opens
      exact absurd (by simp) (apart character (by simp))

theorem replaceAll_append (pattern replacement first second : List Char)
    (apart : ∀ character ∈ second.head?, character ∉ pattern) :
    replaceAll pattern replacement (first ++ second) =
      replaceAll pattern replacement first ++ replaceAll pattern replacement second := by
  induction first using replaceAll.induct pattern with
  | case1 => simp [replaceAll]
  | case2 character rest opens ih =>
    have short : pattern.length - 1 ≤ rest.length := by
      have := (List.isPrefixOf_iff_prefix.1 opens).length_le
      simp only [List.length_cons] at this
      omega
    have both := isPrefixOf_append_eq (character :: rest) apart
    rw [List.cons_append] at both ⊢
    rw [replaceAll, both, if_pos opens, List.drop_append_of_le_length short, ih, replaceAll.eq_2 _ _ character rest,
      if_pos opens, List.append_assoc]
  | case3 character rest closed ih =>
    have both := isPrefixOf_append_eq (character :: rest) apart
    rw [List.cons_append] at both ⊢
    rw [replaceAll, both, if_neg closed, ih, replaceAll.eq_2 _ _ character rest, if_neg closed, List.cons_append]

theorem replaceAll_of_not_infix {pattern text : List Char} (replacement : List Char) (absent : ¬ pattern <:+: text) :
    replaceAll pattern replacement text = text := by
  induction text with
  | nil => simp [replaceAll]
  | cons first rest ih =>
    have closed : ¬ pattern.isPrefixOf (first :: rest) = true := fun opens =>
      absent (List.isPrefixOf_iff_prefix.1 opens).isInfix
    rw [replaceAll, if_neg closed, ih fun present => absent (present.trans (List.suffix_cons first rest).isInfix)]

namespace Problem

/-- The marks that a template has for its arguments. -/
def marks : List (List Char) := ["<arg>".toList, "<arg2>".toList, "<arg3>".toList]

/-- The text of a mark. -/
def markText (index : Nat) : List Char := marks[index]?.getD []

/-- Every mark of the text replaced by its own argument in one pass from left to right. -/
def fillMarks (arguments : Nat → List Char) : List Char → List Char
  | [] => []
  | first :: rest =>
      match marks.findIdx? (fun mark => mark.isPrefixOf (first :: rest)) with
      | some index => arguments index ++ fillMarks arguments (rest.drop ((markText index).length - 1))
      | none => first :: fillMarks arguments rest
termination_by text => text.length
decreasing_by
  all_goals simp only [List.length_drop, List.length_cons]
  all_goals omega

/-- What a template is made of. -/
inductive Piece where
  | letter (character : Char)
  | mark (index : Nat)
deriving DecidableEq, Repr

/-- The pieces of a text. -/
def pieces : List Char → List Piece
  | [] => []
  | '<' :: 'a' :: 'r' :: 'g' :: '>' :: rest => .mark 0 :: pieces rest
  | '<' :: 'a' :: 'r' :: 'g' :: '2' :: '>' :: rest => .mark 1 :: pieces rest
  | '<' :: 'a' :: 'r' :: 'g' :: '3' :: '>' :: rest => .mark 2 :: pieces rest
  | first :: rest => .letter first :: pieces rest

/-- The text of the pieces with these contents at the marks. -/
def spell (contents : Nat → List Char) : List Piece → List Char
  | [] => []
  | .letter character :: rest => character :: spell contents rest
  | .mark index :: rest => contents index ++ spell contents rest

/-- The letters that marks have. -/
def markLetters : List Char := marks.flatten

/-- No letter opens a mark, and behind a mark there is nothing or a letter that no mark has. -/
def tidy : List Piece → Bool
  | [] => true
  | .letter character :: rest => character ≠ '<' && tidy rest
  | [.mark index] => index < marks.length
  | .mark index :: .letter character :: rest =>
      index < marks.length && character ∉ markLetters && tidy (.letter character :: rest)
  | .mark _ :: .mark _ :: _ => false

theorem spell_pieces (text : List Char) : spell markText (pieces text) = text := by
  induction text using pieces.induct with
  | case1 => rfl
  | case2 rest ih => rw [pieces, spell, ih]; rfl
  | case3 rest ih => rw [pieces, spell, ih]; rfl
  | case4 rest ih => rw [pieces, spell, ih]; rfl
  | case5 first rest _ _ _ ih => rw [pieces, spell, ih] <;> assumption

theorem toList_of_eq_ofList {text : String} {characters : List Char} (same : text = String.ofList characters) :
    text.toList = characters := by
  rw [same, String.toList_ofList]

theorem tidy_template (problem : Problem) : tidy (pieces problem.template.toList) = true := by
  -- a literal is unfolded to its characters by unification, since decoding it is slow
  cases problem <;> rw [template, toList_of_eq_ofList rfl] <;> rfl

theorem spell_congr {first second : Nat → List Char} {text : List Piece}
    (same : ∀ index, .mark index ∈ text → first index = second index) : spell first text = spell second text := by
  induction text with
  | nil => rfl
  | cons piece rest ih =>
    have later := ih fun index present => same index (List.mem_cons_of_mem _ present)
    cases piece with
    | letter character => rw [spell, later, spell]
    | mark index => rw [spell, later, same index List.mem_cons_self, spell]

theorem markText_infix_spell {index : Nat} {text : List Piece} (present : .mark index ∈ text) :
    markText index <:+: spell markText text := by
  induction text with
  | nil => cases present
  | cons piece rest ih =>
    rcases List.mem_cons.1 present with rfl | later
    · exact (List.prefix_append _ _).isInfix
    · cases piece with
      | letter character => exact (ih later).trans (List.suffix_cons _ _).isInfix
      | mark other => exact (ih later).trans (List.suffix_append _ _).isInfix

/-- What a pass needs to know about a mark and what is behind it. -/
theorem apart_of_tidy {index : Nat} {rest : List Piece} (good : tidy (.mark index :: rest) = true)
    (contents : Nat → List Char) :
    index < marks.length ∧ tidy rest = true ∧
      ∀ character ∈ (spell contents rest).head?, character ∉ markLetters := by
  match rest with
  | [] => simpa [tidy, spell] using good
  | .letter character :: rest =>
    rw [tidy, Bool.and_eq_true, Bool.and_eq_true, decide_eq_true_eq, decide_eq_true_eq] at good
    refine ⟨good.1.1, good.2, fun other head => ?_⟩
    cases head
    exact good.1.2
  | .mark other :: rest => simp [tidy] at good

theorem lt_of_mem_tidy {text : List Piece} (good : tidy text = true) {index : Nat} (present : .mark index ∈ text) :
    index < marks.length := by
  induction text with
  | nil => cases present
  | cons piece rest ih =>
    cases piece with
    | letter character =>
      rw [tidy, Bool.and_eq_true] at good
      exact ih good.2 (by simpa using present)
    | mark other =>
      obtain ⟨bound, tidyRest, -⟩ := apart_of_tidy good markText
      rcases List.mem_cons.1 present with same | later
      · cases same
        exact bound
      · exact ih tidyRest later

theorem markText_mem (index : Nat) (bound : index < marks.length) : markText index ∈ marks := by
  rw [markText, List.getElem?_eq_getElem bound]
  exact List.getElem_mem bound

theorem exists_cons_of_mem_marks {mark : List Char} (present : mark ∈ marks) : ∃ rest, mark = '<' :: rest :=
  have heads : ∀ mark ∈ marks, mark.head? = some '<' := by decide
  List.head?_eq_some_iff.1 (heads mark present)

/-- No mark is at a letter of a tidy text. -/
theorem not_isPrefixOf_of_ne {mark : List Char} (present : mark ∈ marks) {character : Char}
    (other : character ≠ '<') (rest : List Char) : mark.isPrefixOf (character :: rest) = false := by
  obtain ⟨tail, rfl⟩ := exists_cons_of_mem_marks present
  simp [List.isPrefixOf, other.symm]

/-- A pass that replaces one mark works on the contents of all marks apart. -/
theorem replaceAll_spell {mark : List Char} (isMark : mark ∈ marks) (replacement : List Char)
    (contents : Nat → List Char) {text : List Piece} (good : tidy text = true) :
    replaceAll mark replacement (spell contents text) =
      spell (fun index => replaceAll mark replacement (contents index)) text := by
  induction text with
  | nil => simp [spell, replaceAll]
  | cons piece rest ih =>
    cases piece with
    | letter character =>
      rw [tidy, Bool.and_eq_true, decide_eq_true_eq] at good
      rw [spell, replaceAll, if_neg (by simp [not_isPrefixOf_of_ne isMark good.1]), ih good.2, spell]
    | mark index =>
      obtain ⟨-, tidyRest, apart⟩ := apart_of_tidy good contents
      have apartMark : ∀ character ∈ (spell contents rest).head?, character ∉ mark :=
        fun character head present => apart character head (List.mem_flatten.2 ⟨mark, isMark, present⟩)
      rw [spell, replaceAll_append _ _ _ _ apartMark, ih tidyRest, spell]

/-- The mark at the front of a text is the one that is found. -/
theorem findIdx?_markText {index : Nat} (bound : index < marks.length) (rest : List Char) :
    marks.findIdx? (fun mark => mark.isPrefixOf (markText index ++ rest)) = some index := by
  match index, bound with
  | 0, _ => rfl
  | 1, _ => rfl
  | 2, _ => rfl

/-- One pass over a tidy text puts the arguments in the places of the marks. -/
theorem fillMarks_spell (arguments : Nat → List Char) {text : List Piece} (good : tidy text = true) :
    fillMarks arguments (spell markText text) = spell arguments text := by
  induction text with
  | nil => simp [spell, fillMarks]
  | cons piece rest ih =>
    cases piece with
    | letter character =>
      rw [tidy, Bool.and_eq_true, decide_eq_true_eq] at good
      have unmarked : marks.findIdx? (fun mark => mark.isPrefixOf (character :: spell markText rest)) = none :=
        List.findIdx?_eq_none_iff.2 fun mark isMark => not_isPrefixOf_of_ne isMark good.1 _
      rw [spell, fillMarks, unmarked]
      simp only [ih good.2, spell]
    | mark index =>
      obtain ⟨bound, tidyRest, -⟩ := apart_of_tidy good markText
      obtain ⟨tail, opens⟩ := exists_cons_of_mem_marks (markText_mem index bound)
      have found := findIdx?_markText bound (spell markText rest)
      rw [opens, List.cons_append] at found
      rw [spell, opens, List.cons_append, fillMarks, found]
      simp only [opens, List.length_cons, Nat.add_sub_cancel, List.drop_left, ih tidyRest, spell]

/-- The argument of a message at an index. -/
def argument (arguments : List String) (index : Nat) : List Char := (arguments[index]?.getD "").toList

/-- What stands at a mark in the end: an argument in which the passes that come later have replaced the marks
of the arguments before it. -/
def overfilled (arguments : List String) : Nat → List Char
  | 0 => argument arguments 0
  | 1 => replaceAll (markText 0) (argument arguments 0) (argument arguments 1)
  | 2 => replaceAll (markText 0) (argument arguments 0)
      (replaceAll (markText 1) (argument arguments 1) (argument arguments 2))
  | _ => []

theorem replaceAll_self {mark : List Char} (isMark : mark ∈ marks) (replacement : List Char) :
    replaceAll mark replacement mark = replacement := by
  obtain ⟨tail, rfl⟩ := exists_cons_of_mem_marks isMark
  rw [replaceAll, if_pos (by simp)]
  simp [replaceAll]

theorem replaceAll_markText_of_ne {first second : Nat} (firstBound : first < marks.length)
    (secondBound : second < marks.length) (other : first ≠ second) (replacement : List Char) :
    replaceAll (markText first) replacement (markText second) = markText second :=
  have apart : ∀ first < marks.length, ∀ second < marks.length, first ≠ second →
      ¬ markText first <:+: markText second := by decide
  replaceAll_of_not_infix replacement (apart first firstBound second secondBound other)

/-- The three passes over a mark end with its argument in the form that the later passes give it. -/
theorem passes_markText (arguments : List String) (index : Nat) :
    replaceAll (markText 0) (argument arguments 0) (replaceAll (markText 1) (argument arguments 1)
      (replaceAll (markText 2) (argument arguments 2) (markText index))) = overfilled arguments index := by
  match index with
  | 0 =>
    rw [replaceAll_markText_of_ne (by decide) (by decide) (by decide),
      replaceAll_markText_of_ne (by decide) (by decide) (by decide), replaceAll_self (markText_mem _ (by decide)),
      overfilled]
  | 1 =>
    rw [replaceAll_markText_of_ne (by decide) (by decide) (by decide), replaceAll_self (markText_mem _ (by decide)),
      overfilled]
  | 2 => rw [replaceAll_self (markText_mem _ (by decide)), overfilled]
  | _ + 3 => simp [markText, marks, replaceAll, overfilled]

theorem render_eq_spell (problem : Problem) (arguments : List String) :
    (problem.render arguments).toList = spell (overfilled arguments) (pieces problem.template.toList) := by
  have good := tidy_template problem
  have passes := congrArg (fun text => replaceAll (markText 0) (argument arguments 0)
    (replaceAll (markText 1) (argument arguments 1) (replaceAll (markText 2) (argument arguments 2) text)))
    (spell_pieces problem.template.toList)
  simp only [replaceAll_spell (markText_mem 0 (by decide)) _ _ good,
    replaceAll_spell (markText_mem 1 (by decide)) _ _ good,
    replaceAll_spell (markText_mem 2 (by decide)) _ _ good, passes_markText] at passes
  rw [render, String.toList_ofList, passes]
  rfl

/-- Nothing is changed in an argument without the marks of the arguments before it. -/
theorem overfilled_eq_argument {arguments : List String} {index : Nat} (bound : index < marks.length)
    (plain : ∀ earlier < index, ¬ markText earlier <:+: argument arguments index) :
    overfilled arguments index = argument arguments index := by
  match index with
  | 0 => rfl
  | 1 => exact replaceAll_of_not_infix _ (plain 0 (by decide))
  | 2 =>
    rw [overfilled, replaceAll_of_not_infix _ (plain 1 (by decide)),
      replaceAll_of_not_infix _ (plain 0 (by decide))]

/-- A message is its template with every mark replaced, in one pass, by what the later passes make of its argument:
the argument itself if it does not contain the mark of an argument before it. -/
theorem render_eq_fillMarks (problem : Problem) (arguments : List String) :
    (problem.render arguments).toList = fillMarks (overfilled arguments) problem.template.toList ∧
      ((∀ index, markText index <:+: problem.template.toList →
          ∀ earlier < index, ¬ markText earlier <:+: argument arguments index) →
        (problem.render arguments).toList = fillMarks (argument arguments) problem.template.toList) := by
  have good := tidy_template problem
  have spelled := spell_pieces problem.template.toList
  have exact := render_eq_spell problem arguments
  rw [← fillMarks_spell _ good, spelled] at exact
  refine ⟨exact, fun plain => ?_⟩
  have same : ∀ index, .mark index ∈ pieces problem.template.toList →
      overfilled arguments index = argument arguments index := fun index present =>
    overfilled_eq_argument (lt_of_mem_tidy good present) (plain index (spelled ▸ markText_infix_spell present))
  calc (problem.render arguments).toList
    _ = spell (overfilled arguments) (pieces problem.template.toList) := render_eq_spell problem arguments
    _ = spell (argument arguments) (pieces problem.template.toList) := spell_congr same
    _ = fillMarks (argument arguments) problem.template.toList := by rw [← fillMarks_spell _ good, spelled]

/-- The warning for the set of the rule `A : [<arg>a] ;`: the set, which is the second argument, is not printed as
it is written. -/
theorem collisionMessage_overfilled :
    collisionInSet.render ["a", "[<arg>a]"] = "chars a used multiple times in set [aa]" ∧
      String.ofList (fillMarks (argument ["a", "[<arg>a]"]) collisionInSet.template.toList) =
        "chars a used multiple times in set [<arg>a]" := by
  decide +kernel

end Problem

end GrammarNetwork
