import GrammarNetwork.Proofs.Reports

/-! The parts of a character set. Its text is cut into characters and escapes without a gap, and these into code points,
ranges and properties; the set has the characters of all of them, or none at all after an error that ends the reading. -/

namespace GrammarNetwork

open Literal

namespace Literal

/-- Where a mark is found, the text is cut in two. -/
theorem exists_of_findIdx? {mark : Char} {text : List Char} {count : Nat}
    (found : text.findIdx? (· == mark) = some count) :
    ∃ inside rest, mark ∉ inside ∧ text = inside ++ mark :: rest ∧ inside.length = count := by
  obtain ⟨bound, here, before⟩ := List.findIdx?_eq_some_iff_getElem.mp found
  refine ⟨text.take count, text.drop (count + 1), ?_, ?_, by simp; omega⟩
  · intro member
    obtain ⟨index, less, same⟩ := List.mem_take_iff_getElem.mp member
    have other := before index (by omega)
    simp [same] at other
  · rw [← beq_iff_eq.mp here, List.getElem_cons_drop, List.take_append_drop]

/-- An escape of this form takes some of the text behind its letter and is read from these characters alone. -/
def Local (escape : List Char → Escape) : Prop :=
  ∀ rest, ∃ count ≤ rest.length, (escape rest).length = count + 2 ∧ escape (rest.take count) = escape rest

/-- An escape whose text stands in braces ends at the second one, or at the end of the text if it is missing. -/
theorem local_braces {escape : List Char → Escape} (meaning : List Char → EscapeMeaning)
    (reads : ∀ text, escape ('{' :: text) = match text.findIdx? (· == '}') with
      | some count => ⟨meaning (text.take count), count + 4⟩
      | none => ⟨.invalid, text.length + 3⟩) (text : List Char) :
    ∃ count ≤ ('{' :: text).length,
      (escape ('{' :: text)).length = count + 2 ∧ escape (('{' :: text).take count) = escape ('{' :: text) := by
  cases found : text.findIdx? (· == '}') with
  | none => exact ⟨text.length + 1, Nat.le_refl _, by simp [reads, found], by simp⟩
  | some count =>
      obtain ⟨inside, rest, free, rfl, rfl⟩ := exists_of_findIdx? found
      have ends := findIdx?_append_mark free []
      have piece : ('{' :: (inside ++ '}' :: rest)).take (inside.length + 2) = '{' :: (inside ++ ['}']) := by
        simp [List.take_append]
      refine ⟨inside.length + 2, by simp, by simp [reads, found], ?_⟩
      simp only [piece, reads, found, ends]
      simp

theorem unicodeEscape_of_ne {rest : List Char} (plain : ∀ digits, rest ≠ '{' :: digits) :
    unicodeEscape rest = if rest.length < 4 then ⟨.invalid, rest.length + 2⟩
      else match hexCodePoint? (rest.take 4) with
        | some code => ⟨.codePoint code, 6⟩
        | none => ⟨.invalid, 6⟩ := by
  unfold unicodeEscape
  split
  · rename_i digits
    exact absurd rfl (plain digits)
  · rfl

theorem local_unicodeEscape : Local unicodeEscape := by
  intro rest
  by_cases braced : ∃ digits, rest = '{' :: digits
  · obtain ⟨digits, rfl⟩ := braced
    refine local_braces (fun digits => ((hexCodePoint? digits).map .codePoint).getD .invalid) (fun text => ?_) digits
    simp only [unicodeEscape]
    cases text.findIdx? (· == '}') with
    | none => rfl
    | some count =>
        simp only
        cases hexCodePoint? (text.take count) <;> rfl
  · have plain : ∀ digits, rest ≠ '{' :: digits := fun digits same => braced ⟨digits, same⟩
    by_cases short : rest.length < 4
    · refine ⟨rest.length, Nat.le_refl _, ?_, by rw [List.take_length]⟩
      rw [unicodeEscape_of_ne plain, if_pos short]
    · have still : ∀ digits, rest.take 4 ≠ '{' :: digits := by
        intro digits same
        refine plain (digits ++ rest.drop 4) ?_
        rw [← List.cons_append, ← same, List.take_append_drop]
      refine ⟨4, by omega, ?_, ?_⟩
      · rw [unicodeEscape_of_ne plain, if_neg short]
        split <;> rfl
      · have enough : ¬(rest.take 4).length < 4 := by
          rw [List.length_take]
          omega
        rw [unicodeEscape_of_ne still, unicodeEscape_of_ne plain, if_neg short, if_neg enough, List.take_take,
          Nat.min_self]

theorem local_propertyEscape (inverted : Bool) : Local (propertyEscape inverted) := by
  intro rest
  by_cases braced : ∃ name, rest = '{' :: name
  · obtain ⟨name, rfl⟩ := braced
    refine local_braces (fun name => ((Unicode.property? (String.ofList name)).map fun set =>
      .property (if inverted then complementInCodeSpace set else set)).getD .invalid) (fun text => ?_) name
    simp only [propertyEscape]
    cases text.findIdx? (· == '}') with
    | none => rfl
    | some count =>
        simp only
        cases Unicode.property? (String.ofList (text.take count)) <;> rfl
  · have plain : propertyEscape inverted rest = ⟨.invalid, 2⟩ := by
      unfold propertyEscape
      split
      · rename_i name
        exact absurd ⟨name, rfl⟩ braced
      · rfl
    exact ⟨0, Nat.zero_le _, by rw [plain], by rw [List.take_zero, plain]; rfl⟩

/-- An escape with any other letter is two characters long. -/
theorem readEscape_short {letter : Char} (unicode : letter ≠ 'u') (property : letter ≠ 'p')
    (complement : letter ≠ 'P') (rest : List Char) :
    readEscape ('\\' :: letter :: rest) = readEscape ['\\', letter] ∧ (readEscape ['\\', letter]).length = 2 := by
  simp only [readEscape]
  grind

/-- An escape takes at least the backslash and no more than there is, and it is read from its own characters alone. -/
theorem readEscape_local (rest : List Char) : ∃ count ≤ rest.length,
    (readEscape ('\\' :: rest)).length = count + 1 ∧
      readEscape ('\\' :: rest.take count) = readEscape ('\\' :: rest) := by
  have lettered : ∀ {escape : List Char → Escape} {letter : Char} {after : List Char}, Local escape →
      (∀ tail, readEscape ('\\' :: letter :: tail) = escape tail) → ∃ count ≤ (letter :: after).length,
        (readEscape ('\\' :: letter :: after)).length = count + 1 ∧
          readEscape ('\\' :: (letter :: after).take count) = readEscape ('\\' :: letter :: after) := by
    intro escape letter after isLocal reads
    obtain ⟨count, bound, taken, same⟩ := isLocal after
    refine ⟨count + 1, by simpa using bound, ?_, ?_⟩
    · rw [reads, taken]
    · rw [List.take_succ_cons, reads, reads, same]
  cases rest with
  | nil => exact ⟨0, Nat.le_refl _, rfl, rfl⟩
  | cons letter after =>
      by_cases unicode : letter = 'u'
      · subst unicode
        exact lettered local_unicodeEscape fun _ => rfl
      by_cases property : letter = 'p'
      · subst property
        exact lettered (local_propertyEscape false) fun _ => rfl
      by_cases complement : letter = 'P'
      · subst complement
        exact lettered (local_propertyEscape true) fun _ => rfl
      obtain ⟨same, two⟩ := readEscape_short unicode property complement after
      exact ⟨1, by simp, by rw [same, two], by rw [same]; rfl⟩

end Literal

/-- The token is what this piece of a text is read as. An escape starts with a backslash and ends with the piece. -/
def CharSetToken.Spells (piece : List Char) : CharSetToken → Prop
  | .character letter => piece = [letter] ∧ letter ≠ '\\'
  | .codePoint code => piece.head? = some '\\' ∧ readEscape piece = ⟨.codePoint code, piece.length⟩
  | .property set => piece.head? = some '\\' ∧ readEscape piece = ⟨.property set, piece.length⟩
  | .invalid text => piece.head? = some '\\' ∧ readEscape piece = ⟨.invalid, piece.length⟩ ∧ text = piece

/-- The text is cut into pieces that are read one by one, with nothing between them and nothing beyond its end. -/
theorem charSetTokens_pieces (text : List Char) : ∃ pieces : List (List Char),
    pieces.flatten = text ∧ List.Forall₂ CharSetToken.Spells pieces (charSetTokens text) := by
  fun_induction charSetTokens text with
  | case1 => exact ⟨[], rfl, .nil⟩
  | case2 rest escape token ih =>
      obtain ⟨pieces, same, spelled⟩ := ih
      obtain ⟨count, bound, taken, alone⟩ := Literal.readEscape_local rest
      have whole : ('\\' :: rest.take count).length = escape.length := by
        simp only [escape, taken, List.length_cons, List.length_take]
        omega
      have left : escape.length - 1 = count := by simp [escape, taken]
      refine ⟨('\\' :: rest.take count) :: pieces, ?_, .cons ?_ spelled⟩
      · rw [List.flatten_cons, same, left, List.cons_append, List.take_append_drop]
      · have reads : readEscape ('\\' :: rest.take count) = ⟨escape.meaning, ('\\' :: rest.take count).length⟩ := by
          rw [whole, alone]
        simp only [token]
        split <;> rename_i means <;> rw [means] at reads
        · exact ⟨rfl, reads⟩
        · exact ⟨rfl, reads⟩
        · refine ⟨rfl, reads, ?_⟩
          rw [← whole]
          simp
  | case3 first rest plain ih =>
      obtain ⟨pieces, same, spelled⟩ := ih
      exact ⟨[first] :: pieces, by rw [List.flatten_cons, same]; rfl, .cons ⟨rfl, plain⟩ spelled⟩

/-- What is added to a set at one time. -/
inductive SetPart where
  | codePoint (code : Int)
  | range (first last : Int)
  | set (set : IntervalSet)
deriving DecidableEq

/-- The ranges that the part comes to, in both cases or as it is. -/
def SetPart.forms (ignoring : Bool) : SetPart → List Interval
  | .codePoint code => Unicode.CaseRange.forms ignoring code code
  | .range first last => Unicode.CaseRange.forms ignoring first last
  | .set symbols => symbols.intervals

namespace SetPart

variable {ignoring : Bool}

/-- The characters of all parts. -/
def gathered (ignoring : Bool) (parts : List SetPart) : IntervalSet :=
  .ofIntervals (parts.flatMap (forms ignoring))

theorem gathered_append (first second : List SetPart) :
    gathered ignoring (first ++ second) = (gathered ignoring first).insertAll (second.flatMap (forms ignoring)) := by
  rw [gathered, List.flatMap_append]
  exact IntervalSet.insertAll_append _ _ _

theorem contains_gathered {parts : List SetPart} {value : Int} :
    (gathered ignoring parts).contains value = true ↔ ∃ part ∈ parts, Interval.Covers (part.forms ignoring) value := by
  rw [gathered, IntervalSet.contains_ofIntervals, Interval.covers_flatMap]

end SetPart

/-- Why a character set is given up. -/
inductive CharSetFlaw where
  | invalidEscape (text : List Char)
  | propertyInRange
deriving DecidableEq

/-- The parts that are complete when the tokens of a character set have been read, and what then waits, unless the set
was given up. -/
structure Reading where
  parts : List SetPart
  outcome : Except CharSetFlaw Pending

/-- The same reading with parts before it. -/
def Reading.after (reading : Reading) (parts : List SetPart) : Reading :=
  { reading with parts := parts ++ reading.parts }

namespace Pending

/-- The part that waits. -/
def parts : Pending → List SetPart
  | .nothing => []
  | .codePoint code _ => [.codePoint code]
  | .property set => [.set set]

/-- The part that a further code point completes, and what waits then. -/
def take (code : Int) : Pending → List SetPart × Pending
  | .codePoint first true => ([.range first code], .nothing)
  | pending => (pending.parts, .codePoint code false)

end Pending

/-- Reads the tokens of a character set. -/
def readTokens : (atStart : Bool) → List CharSetToken → Pending → Reading
  | _, [], pending => ⟨[], .ok pending⟩
  | _, .invalid text :: _, _ => ⟨[], .error (.invalidEscape text)⟩
  | _, .property set :: rest, pending =>
      if pending.opensRange then ⟨[], .error .propertyInRange⟩
      else (readTokens false rest (.property set)).after pending.parts
  | _, .codePoint code :: rest, pending =>
      (readTokens false rest (pending.take code).2).after (pending.take code).1
  | atStart, .character character :: rest, pending =>
      if character = '-' ∧ !atStart ∧ !rest.isEmpty ∧ !pending.opensRange ∧ pending ≠ .nothing then
        match pending with
        | .property _ => ⟨[], .error .propertyInRange⟩
        | .codePoint code _ => readTokens false rest (.codePoint code true)
        | .nothing => readTokens false rest .nothing
      else
        (readTokens false rest (pending.take character.toNat).2).after (pending.take character.toNat).1

/-- The reading of a whole character set. -/
def readCharSet (text : String) : Reading :=
  readTokens true (charSetTokens (charSetInside text.toList)) .nothing

namespace Build

variable (plan : Plan) (root : String) (position : Option Position)

def addPart (set : IntervalSet) : SetPart → Build IntervalSet
  | .codePoint code => addRange plan root position set code code
  | .range first last => do
      if last < first then report plan .emptyLiteral position [rangeLiteral first last]
      addRange plan root position set first last
  | .set more => return set.union more

def addParts : IntervalSet → List SetPart → Build IntervalSet
  | set, [] => return set
  | set, part :: rest => do
      let set ← addPart plan root position set part
      addParts set rest

/-- The end of a reading: the flaw is reported if there is one. -/
def endReading (outcome : Except CharSetFlaw Pending) (set : IntervalSet) : Build (Option (IntervalSet × Pending)) :=
  match outcome with
  | .error (.invalidEscape text) => do
      report plan .invalidEscape position [String.ofList text]
      return none
  | .error .propertyInRange => do
      report plan .propertyInRange position [root]
      return none
  | .ok pending => return some (set, pending)

variable {plan root position}

theorem addParts_append (first second : List SetPart) : ∀ set : IntervalSet,
    addParts plan root position set (first ++ second) =
      addParts plan root position set first >>= fun set => addParts plan root position set second := by
  induction first with
  | nil =>
      intro set
      rw [List.nil_append, addParts, pure_bind]
  | cons part first ih =>
      intro set
      simp only [List.cons_append, addParts, bind_assoc, ih]

theorem applyPending_eq (set : IntervalSet) (pending : Pending) :
    applyPending plan root position set pending = addParts plan root position set pending.parts := by
  cases pending with
  | nothing => rfl
  | codePoint code opens => simp [applyPending, Pending.parts, addParts, addPart]
  | property more => rfl

theorem takeCodePoint_eq (set : IntervalSet) (pending : Pending) (code : Int) :
    takeCodePoint plan root position set pending code =
      addParts plan root position set (pending.take code).1 >>= fun set => pure (set, (pending.take code).2) := by
  unfold takeCodePoint
  split
  · rename_i first
    simp only [Pending.take, addParts, addPart]
    split <;> simp
  · rename_i other
    have waits : pending.take code = (pending.parts, .codePoint code false) := by
      unfold Pending.take
      split
      · exact absurd rfl (other _)
      · rfl
    rw [waits, applyPending_eq]

/-- Reading comes first: a character set adds its parts one after the other, and reports the flaw that ends it. -/
theorem scanTokens_eq (tokens : List CharSetToken) : ∀ (atStart : Bool) (set : IntervalSet) (pending : Pending),
    scanTokens plan root position atStart tokens set pending =
      addParts plan root position set (readTokens atStart tokens pending).parts >>=
        endReading plan root position (readTokens atStart tokens pending).outcome := by
  induction tokens with
  | nil =>
      intro atStart set pending
      rfl
  | cons token rest ih =>
      intro atStart set pending
      have takes : ∀ code : Int, (takeCodePoint plan root position set pending code >>= fun taken =>
          scanTokens plan root position false rest taken.1 taken.2) =
            addParts plan root position set
              ((readTokens false rest (pending.take code).2).after (pending.take code).1).parts >>=
              endReading plan root position (readTokens false rest (pending.take code).2).outcome := by
        intro code
        simp only [takeCodePoint_eq, Reading.after, addParts_append, bind_assoc, pure_bind, ih]
      cases token with
      | invalid text => rfl
      | property more =>
          simp only [scanTokens, readTokens]
          split
          · rfl
          · simp only [applyPending_eq, Reading.after, addParts_append, bind_assoc, ih]
      | codePoint code => exact takes code
      | character character =>
          simp only [scanTokens, readTokens]
          split
          · cases pending with
            | nothing => exact ih _ _ _
            | codePoint code opens => exact ih _ _ _
            | property more => rfl
          · exact takes character.toNat

variable {ignoring : Bool}

/-- What is reported when a part is added to a set. -/
def partReports (plan : Plan) (ignoring : Bool) (root : String) (position : Option Position) (set : IntervalSet) :
    SetPart → List Diagnostic
  | .codePoint code => rangeReports plan ignoring root position set code code
  | .range first last =>
      (if last < first then [diagnostic plan .emptyLiteral position [rangeLiteral first last]] else []) ++
        rangeReports plan ignoring root position set first last
  | .set _ => []

/-- What is reported when parts are added one after the other. -/
def partsReports (plan : Plan) (ignoring : Bool) (root : String) (position : Option Position) :
    IntervalSet → List SetPart → List Diagnostic
  | _, [] => []
  | set, part :: rest =>
      partReports plan ignoring root position set part ++
        partsReports plan ignoring root position (set.insertAll (part.forms ignoring)) rest

theorem tells_addPart (set : IntervalSet) (part : SetPart) :
    Tells plan ignoring (addPart plan root position set part) (set.insertAll (part.forms ignoring))
      (partReports plan ignoring root position set part) := by
  cases part with
  | codePoint code => exact tells_addRange set code code
  | range first last =>
      unfold addPart partReports
      refine (tells_report _ _).when _ ?_
      exact tells_addRange set first last
  | set more => exact tells_pure _

theorem tells_addParts (parts : List SetPart) : ∀ set : IntervalSet,
    Tells plan ignoring (addParts plan root position set parts)
      (set.insertAll (parts.flatMap (SetPart.forms ignoring)))
      (partsReports plan ignoring root position set parts) := by
  induction parts with
  | nil => exact fun set => tells_pure set
  | cons part rest ih =>
      intro set
      rw [List.flatMap_cons, IntervalSet.insertAll_append]
      exact (tells_addPart set part).bind (ih _)

/-- What is reported of a character set that is given up. -/
def flawReport (plan : Plan) (root : String) (position : Option Position) : CharSetFlaw → Diagnostic
  | .invalidEscape text => diagnostic plan .invalidEscape position [String.ofList text]
  | .propertyInRange => diagnostic plan .propertyInRange position [root]

/-- What is reported at the end of a reading. -/
def flawReports (plan : Plan) (root : String) (position : Option Position) : Except CharSetFlaw Pending → List Diagnostic
  | .error flaw => [flawReport plan root position flaw]
  | .ok _ => []

theorem tells_endReading (outcome : Except CharSetFlaw Pending) (set : IntervalSet) :
    Tells plan ignoring (endReading plan root position outcome set) (outcome.toOption.map fun pending => (set, pending))
      (flawReports plan root position outcome) := by
  rcases outcome with (text | _) | pending
  · exact (tells_report .invalidEscape [String.ofList text]).map fun _ => none
  · exact (tells_report .propertyInRange [root]).map fun _ => none
  · exact tells_pure _

/-- Scanning gives the characters of the parts that are complete, and what then waits. -/
theorem tells_scanTokens (atStart : Bool) (tokens : List CharSetToken) (set : IntervalSet) (pending : Pending) :
    Tells plan ignoring (scanTokens plan root position atStart tokens set pending)
      ((readTokens atStart tokens pending).outcome.toOption.map fun last =>
        (set.insertAll ((readTokens atStart tokens pending).parts.flatMap (SetPart.forms ignoring)), last))
      (partsReports plan ignoring root position set (readTokens atStart tokens pending).parts ++
        flawReports plan root position (readTokens atStart tokens pending).outcome) := by
  rw [scanTokens_eq]
  exact (tells_addParts _ set).bind (tells_endReading _ _)

theorem tells_closeSet (set : IntervalSet) :
    Tells plan ignoring (closeSet plan position set) set
      (if set.isEmpty then [diagnostic plan .emptyLiteral position ["[]"]] else []) := by
  unfold closeSet
  rw [← List.append_nil (ite _ [_] [])]
  refine (tells_report _ _).when _ ?_
  exact tells_pure _

end Build

namespace Reading

/-- The parts that are added one after the other, up to the flaw if there is one. -/
def added (reading : Reading) : List SetPart :=
  match reading.outcome with
  | .error _ => reading.parts
  | .ok pending => reading.parts ++ pending.parts

/-- The parts of a reading that was not given up. -/
def allParts (reading : Reading) : List SetPart :=
  match reading.outcome with
  | .error _ => []
  | .ok _ => reading.added

/-- The characters that the parts come to, in both cases or as they are; none if the reading was given up. -/
def symbols (ignoring : Bool) (reading : Reading) : IntervalSet :=
  SetPart.gathered ignoring reading.allParts

end Reading

namespace Build

variable {plan : Plan} {root : String} {position : Option Position} {ignoring : Bool}

theorem partsReports_append (first second : List SetPart) : ∀ set : IntervalSet,
    partsReports plan ignoring root position set (first ++ second) =
      partsReports plan ignoring root position set first ++
        partsReports plan ignoring root position (set.insertAll (first.flatMap (SetPart.forms ignoring))) second := by
  induction first with
  | nil => exact fun _ => rfl
  | cons part first ih =>
      intro set
      simp only [List.cons_append, partsReports, ih, List.append_assoc, List.flatMap_cons, IntervalSet.insertAll_append]

/-- What is reported of a character set when its parts have been added. -/
def closingReports (plan : Plan) (ignoring : Bool) (text : String) (position : Option Position) (reading : Reading) :
    List Diagnostic :=
  match reading.outcome with
  | .error flaw => [flawReport plan text position flaw]
  | .ok _ => if (reading.symbols ignoring).isEmpty then [diagnostic plan .emptyLiteral position ["[]"]] else []

/-- What is reported of a character set. -/
def charSetReports (plan : Plan) (ignoring : Bool) (text : String) (position : Option Position) (reading : Reading) :
    List Diagnostic :=
  partsReports plan ignoring text position .empty reading.added ++
    closingReports plan ignoring text position reading

theorem tells_charSet (text : String) :
    Tells plan ignoring (charSet plan text position) ((readCharSet text).symbols ignoring)
      (charSetReports plan ignoring text position (readCharSet text)) := by
  have scans : Tells plan ignoring (scanTokens plan text position true (charSetTokens (charSetInside text.toList))
    .empty .nothing) _ _ := tells_scanTokens true _ .empty .nothing
  rw [← readCharSet] at scans
  unfold charSet
  generalize readCharSet text = reading at scans ⊢
  obtain ⟨parts, flaw | pending⟩ := reading
  · refine (scans.bind ?_).of_eq (List.append_nil _)
    exact tells_pure _
  · have all : Reading.symbols ignoring ⟨parts, .ok pending⟩ = (SetPart.gathered ignoring parts).insertAll
        (pending.parts.flatMap (SetPart.forms ignoring)) := SetPart.gathered_append parts pending.parts
    simp only [charSetReports, closingReports, Reading.added, partsReports_append, List.append_assoc, all]
    rw [← List.append_nil (partsReports plan ignoring text position .empty parts)]
    refine scans.bind ?_
    simp only [Except.toOption, Option.map_some, applyPending_eq]
    exact (tells_addParts pending.parts _).bind (tells_closeSet _)

end Build

end GrammarNetwork
