import Mathlib.Data.Nat.Digits.Defs
import GrammarNetwork.Proofs.Canonical
import GrammarNetwork.Proofs.Leaves
import GrammarNetwork.Proofs.Texts

/-! Character sets: a set that is written as code points, ranges and properties one after the other has the characters
of these items, however the code points are spelled. A code point or range is reported when an item before it has one
of its characters, and an error only when there are no characters at all. -/

namespace GrammarNetwork

open Literal

/-- A hexadecimal digit, which may be a capital letter. -/
structure HexDigit where
  value : Fin 16
  capital : Bool
deriving DecidableEq

namespace HexDigit

def character (digit : HexDigit) : Char :=
  let small := Nat.digitChar digit.value
  if digit.capital then small.toUpper else small

/-- The number that digits denote, the most significant one first. -/
def number (digits : List HexDigit) : Nat :=
  Nat.ofDigits 16 (digits.reverse.map fun digit => digit.value.val)

theorem isHexDigit_character (digit : HexDigit) : Unicode.isHexDigit digit.character = true := by
  have all : ∀ value capital, Unicode.isHexDigit (character ⟨value, capital⟩) = true := by decide
  exact all digit.value digit.capital

theorem hexDigitValue_character (digit : HexDigit) : hexDigitValue digit.character = digit.value.val := by
  have all : ∀ value capital, hexDigitValue (character ⟨value, capital⟩) = value.val := by decide
  exact all digit.value digit.capital

theorem number_eq_foldl (digits : List HexDigit) :
    number digits = (digits.map character).foldl (fun sum digit => sum * 16 + hexDigitValue digit) 0 := by
  rw [number, Nat.ofDigits_eq_foldr, List.map_reverse, List.foldr_reverse, List.foldl_map, List.foldl_map]
  simp [hexDigitValue_character, Nat.mul_comm, Nat.add_comm]

theorem hexCodePoint?_characters {digits : List HexDigit} (some : digits ≠ [])
    (inSpace : number digits ≤ Unicode.maxCodePoint) :
    hexCodePoint? (digits.map character) = .some (number digits) := by
  have hexadecimal : (digits.map character).all Unicode.isHexDigit = true := by
    simp [List.all_map, Function.comp_def, isHexDigit_character]
  rw [hexCodePoint?, hexadecimal, ← number_eq_foldl]
  simp [some, inSpace]

theorem notMem_characters {character : Char} (other : Unicode.isHexDigit character = false) (digits : List HexDigit) :
    character ∉ digits.map HexDigit.character := by
  rintro member
  obtain ⟨digit, _, rfl⟩ := List.mem_map.mp member
  rw [digit.isHexDigit_character] at other
  cases other

end HexDigit

/-- How a code point is written in a character set. -/
inductive Spelling where
  | plain (character : Char) (free : character ≠ '\\' ∧ character ≠ '-')
  | hexadecimal (digits : List HexDigit) (some : digits ≠ [])
      (inSpace : HexDigit.number digits ≤ Unicode.maxCodePoint)

namespace Spelling

def code : Spelling → Nat
  | .plain character _ => character.toNat
  | .hexadecimal digits _ _ => HexDigit.number digits

def text : Spelling → List Char
  | .plain character _ => [character]
  | .hexadecimal digits _ _ => ['\\', 'u', '{'] ++ digits.map HexDigit.character ++ ['}']

def token : Spelling → CharSetToken
  | .plain character _ => .character character
  | .hexadecimal digits _ _ => .codePoint (HexDigit.number digits)

end Spelling

theorem drop_append_mark (mark : Char) (inside rest : List Char) :
    (inside ++ mark :: rest).drop (inside.length + 1) = rest := by
  simp [List.drop_append]

theorem charSetTokens_plain {character : Char} (free : character ≠ '\\') (rest : List Char) :
    charSetTokens (character :: rest) = .character character :: charSetTokens rest := by
  rw [charSetTokens, if_neg free]

theorem charSetTokens_spelling (spelling : Spelling) (rest : List Char) :
    charSetTokens (spelling.text ++ rest) = spelling.token :: charSetTokens rest := by
  cases spelling with
  | plain character free => exact charSetTokens_plain free.1 rest
  | hexadecimal digits some inSpace =>
      have closed : '}' ∉ digits.map HexDigit.character := HexDigit.notMem_characters (by decide) digits
      have ends := findIdx?_append_mark closed rest
      have escape : readEscape ('\\' :: 'u' :: '{' :: (digits.map HexDigit.character ++ '}' :: rest)) =
          ⟨.codePoint (HexDigit.number digits), digits.length + 4⟩ := by
        simp [readEscape, unicodeEscape, ends, HexDigit.hexCodePoint?_characters some inSpace]
      simp only [Spelling.text, Spelling.token, List.cons_append, List.nil_append, List.append_assoc]
      rw [charSetTokens, if_pos rfl]
      have left := drop_append_mark '}' (digits.map HexDigit.character) rest
      rw [List.length_map] at left
      simp [escape, left]

theorem notMem_of_property? {name : String} {set : IntervalSet} (known : Unicode.property? name = some set) :
    '}' ∉ name.toList := by
  have free : ∀ {names : List String}, name ∈ names → (∀ other ∈ names, '}' ∉ other.toList) → '}' ∉ name.toList :=
    fun listed all => all name listed
  unfold Unicode.property? at known
  repeat' split at known
  all_goals first
    | exact free ‹_› (by decide)
    | exact ‹name = _› ▸ by decide
    | cases known

/-- A property in braces is read as its set, or as the rest of the code space. -/
theorem readEscape_property (inverted : Bool) {name : String} {set : IntervalSet}
    (known : Unicode.property? name = some set) (rest : List Char) :
    readEscape ('\\' :: (if inverted then 'P' else 'p') :: '{' :: (name.toList ++ '}' :: rest)) =
      ⟨.property (if inverted then complementInCodeSpace set else set), name.toList.length + 4⟩ := by
  have ends := findIdx?_append_mark (notMem_of_property? known) rest
  cases inverted <;> simp [readEscape, propertyEscape, ends, known]

theorem charSetTokens_property (inverted : Bool) {name : String} {set : IntervalSet}
    (known : Unicode.property? name = some set) (rest : List Char) :
    charSetTokens (['\\', if inverted then 'P' else 'p', '{'] ++ name.toList ++ ['}'] ++ rest) =
      .property (if inverted then complementInCodeSpace set else set) :: charSetTokens rest := by
  simp only [List.cons_append, List.nil_append, List.append_assoc]
  rw [charSetTokens, if_pos rfl]
  have left := drop_append_mark '}' name.toList rest
  simp only [readEscape_property inverted known rest, Nat.reduceSubDiff, List.drop_succ_cons, left]

/-- What stands between the brackets of a character set. -/
inductive SetItem where
  | codePoint (spelling : Spelling)
  | range (first last : Spelling) (ascends : first.code ≤ last.code)
  | property (inverted : Bool) (name : String) (set : IntervalSet) (known : Unicode.property? name = some set)

namespace SetItem

def text : SetItem → List Char
  | .codePoint spelling => spelling.text
  | .range first last _ => first.text ++ ['-'] ++ last.text
  | .property inverted name _ _ => ['\\', if inverted then 'P' else 'p', '{'] ++ name.toList ++ ['}']

/-- The item stands for this code point. -/
def Has : SetItem → Int → Prop
  | .codePoint spelling, value => value = spelling.code
  | .range first last _, value => first.code ≤ value ∧ value ≤ last.code
  | .property false _ set _, value => set.contains value = true
  | .property true _ set _, value => 0 ≤ value ∧ value ≤ Unicode.maxCodePoint ∧ set.contains value = false

/-- The ends of a code point or a range. -/
def span? : SetItem → Option Interval
  | .codePoint spelling => some ⟨spelling.code, spelling.code⟩
  | .range first last _ => some ⟨first.code, last.code⟩
  | .property _ _ _ _ => none

/-- The set with the characters of the item. -/
def addTo (set : IntervalSet) : SetItem → IntervalSet
  | .codePoint spelling => set.insertRange spelling.code spelling.code
  | .range first last _ => set.insertRange first.code last.code
  | .property inverted _ more _ => set.union (if inverted then complementInCodeSpace more else more)

/-- The characters of all items. -/
def gathered (items : List SetItem) : IntervalSet :=
  items.foldl addTo .empty

theorem contains_addTo {set : IntervalSet} {item : SetItem} {value : Int} :
    (item.addTo set).contains value = true ↔ item.Has value ∨ set.contains value = true := by
  cases item with
  | codePoint spelling => exact IntervalSet.contains_insert
  | range first last ascends => exact IntervalSet.contains_insertRange
  | property inverted name more known =>
      rw [addTo, IntervalSet.contains_union, or_comm]
      refine or_congr_left ?_
      cases inverted with
      | false => rfl
      | true =>
          rw [if_pos rfl, complementInCodeSpace, IntervalSet.contains_complement, IntervalSet.contains_ofRange, Has,
            and_assoc]

theorem gathered_append (items : List SetItem) (item : SetItem) :
    gathered (items ++ [item]) = item.addTo (gathered items) := by
  simp [gathered]

theorem contains_gathered {items : List SetItem} {value : Int} :
    (gathered items).contains value = true ↔ ∃ item ∈ items, item.Has value := by
  induction items using List.reverseRecOn with
  | nil => simp [gathered, IntervalSet.contains_iff, IntervalSet.empty]
  | append_singleton items item ih =>
      rw [gathered_append, contains_addTo, ih]
      simp [or_comm]

/-- Some item has a code point of the interval. -/
def Meets (items : List SetItem) (span : Interval) : Prop :=
  ∃ value, span.first ≤ value ∧ value ≤ span.last ∧ ∃ item ∈ items, item.Has value

theorem meetsRange_gathered {items : List SetItem} {span : Interval} :
    (gathered items).meetsRange span.first span.last = true ↔ Meets items span := by
  simp only [IntervalSet.meetsRange_iff, contains_gathered, Meets]

instance (items : List SetItem) (span : Interval) : Decidable (Meets items span) :=
  decidable_of_iff _ meetsRange_gathered

/-- The code points and ranges that meet the items before them, in the order of the text. -/
def clashes (earlier : List SetItem) : List SetItem → List Interval
  | [] => []
  | item :: rest => (item.span?.filter fun span => Meets earlier span).toList ++ clashes (earlier ++ [item]) rest

theorem clashes_append (earlier first second : List SetItem) :
    clashes earlier (first ++ second) = clashes earlier first ++ clashes (earlier ++ first) second := by
  induction first generalizing earlier with
  | nil => simp [clashes]
  | cons item first ih => simp [clashes, ih]

/-- The tokens that the item is read as. -/
def tokens : SetItem → List CharSetToken
  | .codePoint spelling => [spelling.token]
  | .range first last _ => [first.token, .character '-', last.token]
  | .property inverted _ set _ => [.property (if inverted then complementInCodeSpace set else set)]

theorem charSetTokens_text (items : List SetItem) :
    charSetTokens (items.flatMap text) = items.flatMap tokens := by
  induction items with
  | nil => simp [charSetTokens]
  | cons item items ih =>
      rw [List.flatMap_cons, List.flatMap_cons, ← ih]
      cases item with
      | codePoint spelling => exact charSetTokens_spelling spelling _
      | range first last ascends =>
          simp only [text, tokens, List.append_assoc, List.cons_append, List.nil_append]
          rw [charSetTokens_spelling, charSetTokens_plain (by decide), charSetTokens_spelling]
      | property inverted name set known => exact charSetTokens_property inverted known _

/-- A character set with these items. -/
def literal (items : List SetItem) : String :=
  String.ofList ('[' :: items.flatMap text ++ [']'])

theorem charSetInside_literal (items : List SetItem) : charSetInside (literal items).toList = items.flatMap text := by
  simp [literal, charSetInside, dropLast?_append]

end SetItem

namespace Build

variable {α β : Type} {index : Nat} {plan : Plan} {position : Option Position} {root : String}

/-- The step gives this value and reports nothing but warnings, among them these collisions. -/
def Warns (index : Nat) (step : Build α) (value : α) (collisions : List Diagnostic) : Prop :=
  ∀ before : Construction, before.rule = some index → ∃ told : List Diagnostic,
    step before = .ok value { before with journal := told.foldl Journal.report before.journal } ∧
    told.filter (fun diagnostic => diagnostic.problem = .collisionInSet) = collisions ∧
    ∀ diagnostic ∈ told, diagnostic.severity = .warning

theorem warns_pure (value : α) : Warns index (pure value) value [] :=
  fun _ _ => ⟨[], rfl, rfl, by simp⟩

theorem Warns.bind {step : Build α} {next : α → Build β} {value : α} {result : β} {some more : List Diagnostic}
    (first : Warns index step value some) (second : Warns index (next value) result more) :
    Warns index (step >>= next) result (some ++ more) := by
  intro before current
  obtain ⟨told, stepped, rfl, warnings⟩ := first before current
  obtain ⟨later, finished, rfl, further⟩ :=
    second { before with journal := told.foldl Journal.report before.journal } current
  refine ⟨told ++ later, ?_, List.filter_append .., List.forall_mem_append.mpr ⟨warnings, further⟩⟩
  simp [Bind.bind, EStateM.bind, stepped, finished]

/-- What follows the step starts with its value and behind its warnings. -/
theorem Warns.run {step : Build α} {value : α} {collisions : List Diagnostic}
    (warns : Warns index step value collisions) (next : α → Build β) (before : Construction)
    (current : before.rule = some index) : ∃ told : List Diagnostic,
      (step >>= next) before = next value { before with journal := told.foldl Journal.report before.journal } ∧
      told.filter (fun diagnostic => diagnostic.problem = .collisionInSet) = collisions ∧
      ∀ diagnostic ∈ told, diagnostic.severity = .warning := by
  obtain ⟨told, stepped, rest⟩ := warns before current
  exact ⟨told, by simp [Bind.bind, EStateM.bind, stepped], rest⟩

/-- A step that warns of no collision comes first. -/
theorem Warns.then {step : Build α} {next : α → Build β} {value : α} {result : β} {more : List Diagnostic}
    (first : Warns index step value []) (second : Warns index (next value) result more) :
    Warns index (step >>= next) result more :=
  first.bind second

theorem warns_isCaseInsensitive : Warns index (isCaseInsensitive plan) (ignoresCase plan index) [] :=
  fun _ current => ⟨[], isCaseInsensitive_eq current, rfl, by simp⟩

theorem warns_reportStrays {range : Unicode.CaseRange} : Warns index (reportStrays plan range position) () [] := by
  unfold reportStrays
  split
  · exact warns_pure _
  · exact fun before _ => ⟨[_], rfl, rfl, by simp [Diagnostic.severity, Problem.severity]⟩

/-- What is reported of a code point or range that meets what a set has already. -/
def collision (plan : Plan) (position : Option Position) (root : String) (span : Interval) : Diagnostic where
  problem := .collisionInSet
  file := plan.grammar.fileName
  position
  arguments := [rangeText span.first span.last, root]

theorem warns_collision (span : Interval) :
    Warns index (report plan .collisionInSet position [rangeText span.first span.last, root]) ()
      [collision plan position root span] :=
  fun _ _ => ⟨[collision plan position root span], rfl, rfl, by simp [collision, Diagnostic.severity, Problem.severity]⟩

theorem warns_addExactRange (set : IntervalSet) (first last : Int) :
    Warns index (addExactRange plan root position set first last none)
      (set.insertRange first last,
        ⟨set.meetsRange first last, (Unicode.CaseRange.classify first last).mixedCase⟩)
      (if set.meetsRange first last then [collision plan position root ⟨first, last⟩] else []) := by
  unfold addExactRange
  simp only [Option.any_none, Bool.not_false, Bool.true_and, Bool.false_or, ↓reduceIte]
  refine warns_reportStrays.then ?_
  cases set.meetsRange first last with
  | false => exact warns_pure _
  | true => exact (warns_collision ⟨first, last⟩).bind (warns_pure _)

theorem warns_addRange (sensitive : ignoresCase plan index = false) (set : IntervalSet) (first last : Int) :
    Warns index (addRange plan root position set first last) (set.insertRange first last)
      (if set.meetsRange first last then [collision plan position root ⟨first, last⟩] else []) := by
  unfold addRange
  refine warns_isCaseInsensitive.then ?_
  rw [sensitive, ← List.append_nil (ite _ _ _)]
  exact (warns_addExactRange set first last).bind (warns_pure _)

/-- A code point or range is added to what the items before it have. -/
theorem warns_addSpan (sensitive : ignoresCase plan index = false) (earlier : List SetItem) (span : Interval) :
    Warns index (addRange plan root position (SetItem.gathered earlier) span.first span.last)
      ((SetItem.gathered earlier).insertRange span.first span.last)
      (((some span).filter fun span => SetItem.Meets earlier span).toList.map (collision plan position root)) := by
  have adds : Warns index (addRange plan root position (SetItem.gathered earlier) span.first span.last) _ _ :=
    warns_addRange sensitive (SetItem.gathered earlier) span.first span.last
  by_cases meets : SetItem.Meets earlier span
  · rw [SetItem.meetsRange_gathered.mpr meets] at adds
    simpa [Option.filter, meets] using adds
  · rw [Bool.eq_false_iff.mpr fun found => meets (SetItem.meetsRange_gathered.mp found)] at adds
    simpa [Option.filter, meets] using adds

/-- A step that has read some items still has to add these. -/
inductive Awaits : Pending → List SetItem → Prop
  | nothing : Awaits .nothing []
  | codePoint (spelling : Spelling) : Awaits (.codePoint spelling.code false) [.codePoint spelling]
  | property (inverted : Bool) (name : String) (set : IntervalSet) (known : Unicode.property? name = some set) :
      Awaits (.property (if inverted then complementInCodeSpace set else set)) [.property inverted name set known]

theorem Awaits.opensRange {pending : Pending} {waiting : List SetItem} (awaits : Awaits pending waiting) :
    pending.opensRange = false := by
  cases awaits <;> rfl

theorem warns_applyPending (sensitive : ignoresCase plan index = false) {pending : Pending} {waiting : List SetItem}
    (awaits : Awaits pending waiting) (earlier : List SetItem) :
    Warns index (applyPending plan root position (SetItem.gathered earlier) pending)
      (SetItem.gathered (earlier ++ waiting))
      ((SetItem.clashes earlier waiting).map (collision plan position root)) := by
  cases awaits with
  | nothing =>
      rw [List.append_nil]
      exact warns_pure _
  | codePoint spelling =>
      rw [SetItem.gathered_append, SetItem.clashes, SetItem.clashes, List.append_nil]
      exact warns_addSpan sensitive earlier ⟨spelling.code, spelling.code⟩
  | property inverted name set known =>
      rw [SetItem.gathered_append]
      exact warns_pure _

/-- However a code point is spelled, it is taken. -/
theorem scanTokens_spelling (atStart : Bool) (spelling : Spelling) (rest : List CharSetToken) (set : IntervalSet)
    (pending : Pending) :
    scanTokens plan root position atStart (spelling.token :: rest) set pending =
      takeCodePoint plan root position set pending spelling.code >>= fun taken =>
        scanTokens plan root position false rest taken.1 taken.2 := by
  cases spelling with
  | plain character free =>
      simp only [Spelling.token, scanTokens, free.2, false_and, if_false]
      rfl
  | hexadecimal digits some inSpace => rfl

theorem scanTokens_dash {rest : List CharSetToken} (goesOn : rest ≠ []) (set : IntervalSet) (code : Int) :
    scanTokens plan root position false (.character '-' :: rest) set (.codePoint code false) =
      scanTokens plan root position false rest set (.codePoint code true) := by
  have between : (!rest.isEmpty) = true := by simpa using goesOn
  rw [scanTokens, if_pos ⟨rfl, rfl, between, rfl, by simp⟩]

/-- A code point that does not end a range makes way for what waits. -/
theorem warns_takeCodePoint (sensitive : ignoresCase plan index = false) {pending : Pending} {waiting : List SetItem}
    (awaits : Awaits pending waiting) (earlier : List SetItem) (code : Int) :
    Warns index (takeCodePoint plan root position (SetItem.gathered earlier) pending code)
      (SetItem.gathered (earlier ++ waiting), .codePoint code false)
      ((SetItem.clashes earlier waiting).map (collision plan position root)) := by
  have adds : Warns index (applyPending plan root position (SetItem.gathered earlier) pending) _ _ :=
    warns_applyPending sensitive awaits earlier
  rw [← List.append_nil (List.map _ _)]
  cases awaits <;> exact adds.bind (warns_pure _)

/-- The second end of a range adds it. -/
theorem warns_closeRange (sensitive : ignoresCase plan index = false) {first last : Nat} (ascends : first ≤ last)
    (earlier : List SetItem) :
    Warns index (takeCodePoint plan root position (SetItem.gathered earlier) (.codePoint first true) last)
      ((SetItem.gathered earlier).insertRange first last, .nothing)
      (((some ⟨first, last⟩).filter fun span => SetItem.Meets earlier span).toList.map
        (collision plan position root)) := by
  simp only [takeCodePoint]
  rw [if_neg (by omega), ← List.append_nil (List.map _ _)]
  exact (warns_addSpan sensitive earlier ⟨first, last⟩).bind (warns_pure _)

/-- Reading items adds them one after the other, and at most the last one still waits at the end. -/
theorem warns_scanTokens (sensitive : ignoresCase plan index = false) (items : List SetItem) :
    ∀ {atStart : Bool} {earlier waiting : List SetItem} {pending : Pending}, Awaits pending waiting →
    ∃ added left remaining, added ++ left = waiting ++ items ∧ Awaits remaining left ∧
      Warns index
        (scanTokens plan root position atStart (items.flatMap SetItem.tokens) (SetItem.gathered earlier) pending)
        (some (SetItem.gathered (earlier ++ added), remaining))
        ((SetItem.clashes earlier added).map (collision plan position root)) := by
  induction items with
  | nil =>
      intro atStart earlier waiting pending awaits
      refine ⟨[], waiting, pending, by simp, awaits, ?_⟩
      rw [List.append_nil]
      exact warns_pure _
  | cons item items ih =>
      intro atStart earlier waiting pending awaits
      rw [List.flatMap_cons]
      -- A code point or a property is held back, since a dash may follow, and what waited is added. A range is added
      -- at once, since both of its ends are there.
      cases item with
      | codePoint spelling =>
          obtain ⟨added, left, remaining, same, still, scans⟩ :=
            @ih false (earlier ++ waiting) _ _ (.codePoint spelling)
          refine ⟨waiting ++ added, left, remaining, by simp [same], still, ?_⟩
          rw [SetItem.clashes_append, List.map_append, ← List.append_assoc]
          rw [SetItem.tokens, List.singleton_append, scanTokens_spelling]
          exact (warns_takeCodePoint sensitive awaits earlier _).bind scans
      | property inverted name set known =>
          obtain ⟨added, left, remaining, same, still, scans⟩ :=
            @ih false (earlier ++ waiting) _ _ (.property inverted name set known)
          refine ⟨waiting ++ added, left, remaining, by simp [same], still, ?_⟩
          rw [SetItem.clashes_append, List.map_append, ← List.append_assoc]
          rw [SetItem.tokens, List.singleton_append, scanTokens, if_neg (by simp [awaits.opensRange])]
          exact (warns_applyPending sensitive awaits earlier).bind scans
      | range first last ascends =>
          obtain ⟨added, left, remaining, same, still, scans⟩ :=
            @ih false (earlier ++ waiting ++ [.range first last ascends]) _ _ .nothing
          refine ⟨waiting ++ .range first last ascends :: added, left, remaining, by simpa using same, still, ?_⟩
          have whole : earlier ++ (waiting ++ .range first last ascends :: added) =
              earlier ++ waiting ++ [.range first last ascends] ++ added := by simp
          rw [SetItem.clashes_append, SetItem.clashes, List.map_append, List.map_append, whole]
          rw [SetItem.tokens, List.cons_append, scanTokens_spelling]
          refine (warns_takeCodePoint sensitive awaits earlier _).bind ?_
          rw [List.cons_append, scanTokens_dash (by simp), List.singleton_append, scanTokens_spelling]
          rw [SetItem.gathered_append] at scans
          exact (warns_closeRange sensitive ascends _).bind scans

/-- At the end of a character set it is reported if it has no characters. -/
def closeSet (plan : Plan) (position : Option Position) (set : IntervalSet) : Build IntervalSet := do
  if set.isEmpty then report plan .emptyLiteral position ["[]"]
  return set

/-- All items have been added when the set is complete. -/
theorem charSet_gathers (sensitive : ignoresCase plan index = false) (items : List SetItem) {before : Construction}
    (current : before.rule = some index) : ∃ told : List Diagnostic,
      charSet plan (SetItem.literal items) position before =
        closeSet plan position (SetItem.gathered items)
          { before with journal := told.foldl Journal.report before.journal } ∧
      told.filter (fun diagnostic => diagnostic.problem = .collisionInSet) =
        (SetItem.clashes [] items).map (collision plan position (SetItem.literal items)) ∧
      ∀ diagnostic ∈ told, diagnostic.severity = .warning := by
  obtain ⟨added, left, remaining, same, still, scans⟩ := @warns_scanTokens index plan position (SetItem.literal items)
    sensitive items true [] [] .nothing .nothing
  obtain rfl : added ++ left = items := same
  simp only [charSet, SetItem.charSetInside_literal, SetItem.charSetTokens_text]
  obtain ⟨told, scanned, collided, warnings⟩ := scans.run _ before current
  obtain ⟨later, applied, collides, further⟩ := (warns_applyPending sensitive still added).run (closeSet plan position)
    { before with journal := told.foldl Journal.report before.journal } current
  refine ⟨told ++ later, scanned.trans (applied.trans ?_), ?_, List.forall_mem_append.mpr ⟨warnings, further⟩⟩
  · rw [List.foldl_append]
  · rw [List.filter_append, collided, collides, SetItem.clashes_append, List.map_append]
    rfl

end Build

/-- In a rule where case matters, a character set has the characters of its items. A collision is reported once for each
code point or range that meets the items before it, and an error only if there are no characters. -/
theorem Build.charSet_union (plan : Plan) (position : Option Position) (items : List SetItem) (index : Nat)
    (sensitive : ignoresCase plan index = false) (before : Construction) (current : before.rule = some index) :
    ∃ (set : IntervalSet) (told : List Diagnostic),
      charSet plan (SetItem.literal items) position before =
        .ok set { before with journal := told.foldl Journal.report before.journal } ∧
      (∀ value, set.contains value = true ↔ ∃ item ∈ items, item.Has value) ∧
      told.filter (fun diagnostic => diagnostic.problem = .collisionInSet) =
        (SetItem.clashes [] items).map (collision plan position (SetItem.literal items)) ∧
      ((∃ diagnostic ∈ told, diagnostic.severity = .error) ↔ ¬∃ value, ∃ item ∈ items, item.Has value) := by
  obtain ⟨told, ended, collisions, warnings⟩ := charSet_gathers sensitive items current
  have harmless : ¬∃ diagnostic ∈ told, diagnostic.severity = .error := by
    rintro ⟨diagnostic, member, wrong⟩
    rw [warnings diagnostic member] at wrong
    cases wrong
  have members : (SetItem.gathered items).isEmpty = true ↔ ¬∃ value, ∃ item ∈ items, item.Has value := by
    simp only [IntervalSet.isEmpty_iff, SetItem.contains_gathered]
  rw [ended, closeSet]
  cases nothing : (SetItem.gathered items).isEmpty with
  | false =>
      have some : ∃ value, ∃ item ∈ items, item.Has value := by
        by_contra absent
        rw [members.mpr absent] at nothing
        cases nothing
      exact ⟨_, told, rfl, fun _ => SetItem.contains_gathered, collisions,
        fun wrong => absurd wrong harmless, fun absent => absurd some absent⟩
  | true =>
      refine ⟨_, told ++ [⟨.emptyLiteral, plan.grammar.fileName, position, ["[]"]⟩], ?_,
        fun _ => SetItem.contains_gathered, ?_, fun _ => members.mp nothing,
        fun _ => ⟨_, List.mem_append_right told (List.mem_singleton.mpr rfl), rfl⟩⟩
      · rw [List.foldl_append]
        rfl
      · simpa using collisions

/-- A lexer with a rule where case matters. -/
def caseSensitiveLexer : Plan := .ofGrammar {
  kind := .lexer
  name := "L"
  fileName := "L.g4"
  caseInsensitive := true
  rules := #[{ name := "A", alternatives := [], caseInsensitive := some false }]
  tokens := ["A"]
  channels := []
  modes := [defaultModeName]
  actionCount := 0 }

/-- The items of `[a-\u{66}\u{0063}\P{ASCII}]`. -/
def overlappingItems : List SetItem := [
  .range (.plain 'a' (by decide)) (.hexadecimal [⟨6, false⟩, ⟨6, false⟩] (by decide) (by decide)) (by decide),
  .codePoint (.hexadecimal [⟨0, false⟩, ⟨0, false⟩, ⟨6, false⟩, ⟨3, false⟩] (by decide) (by decide)),
  .property true "ASCII" (.ofRange 0 0x7F) rfl]

/-- The second item is the only one that is reported. -/
theorem Build.charSet_union_overlapping :
    SetItem.literal overlappingItems = "[a-\\u\x7b66\x7d\\u\x7b0063\x7d\\P\x7bASCII\x7d]" ∧
    ∃ (set : IntervalSet) (told : List Diagnostic),
      charSet caseSensitiveLexer (SetItem.literal overlappingItems) none (blank 0) =
        .ok set { blank 0 with journal := told.foldl Journal.report (blank 0).journal } ∧
      (∀ value, set.contains value = true ↔ ∃ item ∈ overlappingItems, item.Has value) ∧
      told.filter (fun diagnostic => diagnostic.problem = .collisionInSet) =
        [⟨.collisionInSet, "L.g4", none, ["c", SetItem.literal overlappingItems]⟩] ∧
      ((∃ diagnostic ∈ told, diagnostic.severity = .error) ↔ ¬∃ value, ∃ item ∈ overlappingItems, item.Has value) :=
  ⟨by decide +kernel, charSet_union caseSensitiveLexer none overlappingItems 0 rfl (blank 0) rfl⟩

end GrammarNetwork
