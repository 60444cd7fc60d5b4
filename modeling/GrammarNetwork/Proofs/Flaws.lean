import GrammarNetwork.Proofs.SetParts

/-! Flaws of character sets. An escape or a property that is not allowed ends the reading: it is reported last, and there
are no characters. Without a flaw every token of the text is in a part of the set. -/

namespace GrammarNetwork

open Literal

/-- The code point that a token stands for. -/
def CharSetToken.code? : CharSetToken → Option Int
  | .character letter => some letter.toNat
  | .codePoint code => some code
  | .property _ => none
  | .invalid _ => none

/-- The part is written with these tokens. -/
inductive SetPart.Written : List CharSetToken → SetPart → Prop
  | codePoint {token : CharSetToken} {code : Int} (stands : token.code? = some code) : Written [token] (.codePoint code)
  | range {left right : CharSetToken} {first last : Int} (stands : left.code? = some first)
      (also : right.code? = some last) : Written [left, .character '-', right] (.range first last)
  | set (set : IntervalSet) : Written [.property set] (.set set)

/-- What waits is written with these tokens. -/
inductive Pending.Written : List CharSetToken → Pending → Prop
  | nothing : Written [] .nothing
  | codePoint {token : CharSetToken} {code : Int} (stands : token.code? = some code) :
      Written [token] (.codePoint code false)
  | range {token : CharSetToken} {code : Int} (stands : token.code? = some code) :
      Written [token, .character '-'] (.codePoint code true)
  | property (set : IntervalSet) : Written [.property set] (.property set)

/-- The tokens are those of the parts one after the other. -/
def SetPart.Spelled (tokens : List CharSetToken) (parts : List SetPart) : Prop :=
  ∃ written : List (List CharSetToken), written.flatten = tokens ∧ List.Forall₂ SetPart.Written written parts

namespace SetPart

theorem spelled_nil : Spelled [] [] :=
  ⟨[], rfl, .nil⟩

theorem Written.spelled {tokens : List CharSetToken} {part : SetPart} (written : Written tokens part) :
    Spelled tokens [part] :=
  ⟨[tokens], by simp, .cons written .nil⟩

theorem Spelled.append {tokens others : List CharSetToken} {parts rest : List SetPart} (left : Spelled tokens parts)
    (right : Spelled others rest) : Spelled (tokens ++ others) (parts ++ rest) := by
  obtain ⟨written, rfl, each⟩ := left
  obtain ⟨more, rfl, all⟩ := right
  exact ⟨written ++ more, List.flatten_append, List.rel_append each all⟩

end SetPart

namespace Pending.Written

variable {tokens : List CharSetToken} {pending : Pending}

theorem spelled (waits : Written tokens pending) (closed : pending.opensRange = false) :
    SetPart.Spelled tokens pending.parts := by
  cases waits with
  | nothing => exact SetPart.spelled_nil
  | codePoint stands => exact (SetPart.Written.codePoint stands).spelled
  | range stands => cases closed
  | property set => exact (SetPart.Written.set set).spelled

/-- A further code point is part of what it completes, or it waits itself. -/
theorem take (waits : Written tokens pending) {token : CharSetToken} {code : Int} (stands : token.code? = some code) :
    ∃ added left, added ++ left = tokens ++ [token] ∧ SetPart.Spelled added (pending.take code).1 ∧
      Written left (pending.take code).2 ∧ (pending.take code).2.opensRange = false := by
  cases waits with
  | nothing => exact ⟨[], [token], rfl, SetPart.spelled_nil, .codePoint stands, rfl⟩
  | codePoint before => exact ⟨_, [token], rfl, (SetPart.Written.codePoint before).spelled, .codePoint stands, rfl⟩
  | range before => exact ⟨_, [], by simp, (SetPart.Written.range before stands).spelled, .nothing, rfl⟩
  | property set => exact ⟨_, [token], rfl, (SetPart.Written.set set).spelled, .codePoint stands, rfl⟩

end Pending.Written

/-- Unless the reading was given up, no range is open at its end and the tokens are those of all parts. -/
def Reading.Complete (tokens : List CharSetToken) (reading : Reading) : Prop :=
  ∀ last, reading.outcome = .ok last →
    last.opensRange = false ∧ SetPart.Spelled tokens (reading.parts ++ last.parts)

theorem Reading.Complete.after {tokens added : List CharSetToken} {parts : List SetPart} {reading : Reading}
    (complete : reading.Complete tokens) (spelled : SetPart.Spelled added parts) :
    (reading.after parts).Complete (added ++ tokens) := by
  intro last ended
  obtain ⟨closed, rest⟩ := complete last ended
  refine ⟨closed, ?_⟩
  rw [Reading.after, List.append_assoc]
  exact spelled.append rest

/-- A dash opens a range only where a token follows, so every range that is opened is closed. -/
theorem readTokens_complete (tokens : List CharSetToken) : ∀ {atStart : Bool} {pending : Pending}
    {waiting : List CharSetToken}, pending.Written waiting → (pending.opensRange = true → tokens ≠ []) →
    (readTokens atStart tokens pending).Complete (waiting ++ tokens) := by
  induction tokens with
  | nil =>
      rintro atStart pending waiting waits goesOn last ⟨⟩
      have closed : pending.opensRange = false := by
        rw [← Bool.not_eq_true]
        exact fun opens => goesOn opens rfl
      exact ⟨closed, by simpa [readTokens] using waits.spelled closed⟩
  | cons token rest ih =>
      intro atStart pending waiting waits goesOn
      -- A code point is taken in the same way however it is written.
      have takes : ∀ code : Int, token.code? = some code →
          ((readTokens false rest (pending.take code).2).after (pending.take code).1).Complete
            (waiting ++ token :: rest) := by
        intro code stands
        obtain ⟨added, left, same, spelled, still, closed⟩ := waits.take stands
        have whole : waiting ++ token :: rest = added ++ (left ++ rest) := by
          rw [← List.append_assoc, same, List.append_assoc, List.singleton_append]
        rw [whole]
        exact (ih still (by simp [closed])).after spelled
      cases token with
      | invalid text => exact fun _ ended => by cases ended
      | property set =>
          simp only [readTokens]
          split
          · exact fun _ ended => by cases ended
          · rename_i closed
            exact (ih (.property set) (by simp [Pending.opensRange])).after (waits.spelled (by simpa using closed))
      | codePoint code => exact takes code rfl
      | character letter =>
          simp only [readTokens]
          split
          · rename_i dash
            obtain ⟨rfl, _, between, closed, _⟩ := dash
            cases waits with
            | nothing => exact absurd rfl ‹_›
            -- The dash is not the last token, so the range that it opens goes on.
            | codePoint stands => exact ih (.range stands) fun _ => by simpa using between
            | range stands => cases closed
            | property set => exact fun _ ended => by cases ended
          · exact takes letter.toNat rfl

/-- Only a token that is no code point can end the reading, as it does when it is read or as what waits before a dash. -/
theorem exists_of_readTokens_error (tokens : List CharSetToken) : ∀ {atStart : Bool} {pending : Pending}
    {flaw : CharSetFlaw}, (readTokens atStart tokens pending).outcome = .error flaw →
    (∃ set, pending = .property set) ∨ ∃ token ∈ tokens, token.code? = none := by
  induction tokens with
  | nil => exact fun ended => by cases ended
  | cons token rest ih =>
      intro atStart pending flaw ended
      have later {pending : Pending} (code : ∀ set, pending ≠ .property set)
          (ended : (readTokens false rest pending).outcome = .error flaw) :
          ∃ token' ∈ token :: rest, token'.code? = none := by
        obtain ⟨other, listed, none⟩ := (ih ended).resolve_left fun ⟨set, same⟩ => code set same
        exact ⟨other, List.mem_cons_of_mem token listed, none⟩
      have taken (code : Int) (set : IntervalSet) : (pending.take code).2 ≠ .property set := by
        unfold Pending.take
        split <;> simp
      cases token with
      | invalid text => exact Or.inr ⟨_, List.mem_cons_self, rfl⟩
      | property set => exact Or.inr ⟨_, List.mem_cons_self, rfl⟩
      | codePoint code => exact Or.inr (later (taken code) ended)
      | character letter =>
          simp only [readTokens] at ended
          split at ended
          · cases pending with
            | nothing => exact Or.inr (later (by simp) ended)
            | codePoint code opens => exact Or.inr (later (by simp) ended)
            | property set => exact Or.inl ⟨set, rfl⟩
          · exact Or.inr (later (taken letter.toNat) ended)

theorem readCharSet_complete (text : String) :
    (readCharSet text).Complete (charSetTokens (charSetInside text.toList)) :=
  readTokens_complete (charSetTokens (charSetInside text.toList)) Pending.Written.nothing (by simp [Pending.opensRange])

namespace Diagnostic

/-- A character set is given up when this is reported. -/
def GivesUp (diagnostic : Diagnostic) : Prop :=
  diagnostic.problem = .invalidEscape ∨ diagnostic.problem = .propertyInRange

instance (diagnostic : Diagnostic) : Decidable diagnostic.GivesUp :=
  inferInstanceAs (Decidable (_ ∨ _))

/-- It is reported that a character set has no characters. -/
def FindsNothing (diagnostic : Diagnostic) : Prop :=
  diagnostic.problem = .emptyLiteral ∧ diagnostic.arguments = ["[]"]

end Diagnostic

theorem Literal.rangeLiteral_ne_brackets (first last : Int) : rangeLiteral first last ≠ "[]" := by
  have quoted : ∀ code, ∃ rest, (charLiteral code).toList = '\'' :: rest := by
    intro code
    unfold charLiteral
    split
    · exact ⟨_, rfl⟩
    · exact ⟨encodeChar code.toNat ++ ['\''], by simp⟩
  intro same
  obtain ⟨rest, opens⟩ := quoted first
  have texts := congrArg String.toList same
  unfold rangeLiteral at texts
  split at texts
  · simp [opens] at texts
  · simp [opens] at texts

namespace Build

variable {plan : Plan} {ignoring : Bool} {position : Option Position} {root : String} {diagnostic : Diagnostic}

/-- What is reported of a range is a warning of its own. -/
theorem problem_of_rangeReports {set : IntervalSet} {first last : Int}
    (member : diagnostic ∈ rangeReports plan ignoring root position set first last) :
    diagnostic.problem = .strayCharactersInRange ∨ diagnostic.problem = .collisionInSet := by
  rw [rangeReports, List.mem_append] at member
  rcases member with stray | clash
  · unfold strayReports at stray
    split at stray
    · cases stray
    · rw [List.mem_singleton.mp stray]
      exact Or.inl rfl
  · obtain ⟨range, _, rfl⟩ := List.mem_map.mp clash
    exact Or.inr rfl

theorem of_mem_partReports {set : IntervalSet} {part : SetPart}
    (member : diagnostic ∈ partReports plan ignoring root position set part) :
    ¬diagnostic.GivesUp ∧ ¬diagnostic.FindsNothing := by
  have ranged : ∀ {first last}, diagnostic ∈ rangeReports plan ignoring root position set first last →
      ¬diagnostic.GivesUp ∧ ¬diagnostic.FindsNothing := by
    intro first last reported
    rcases problem_of_rangeReports reported with is | is <;> simp [Diagnostic.GivesUp, Diagnostic.FindsNothing, is]
  cases part with
  | codePoint code => exact ranged member
  | range first last =>
      rcases List.mem_append.mp member with reversed | reported
      · split at reversed
        · rw [List.mem_singleton.mp reversed]
          simp [Diagnostic.GivesUp, Diagnostic.FindsNothing, Build.diagnostic, rangeLiteral_ne_brackets]
        · cases reversed
      · exact ranged reported
  | set symbols => cases member

/-- What is reported of the parts neither ends the reading nor says that there are no characters. -/
theorem of_mem_partsReports {parts : List SetPart} : ∀ {set : IntervalSet},
    diagnostic ∈ partsReports plan ignoring root position set parts →
    ¬diagnostic.GivesUp ∧ ¬diagnostic.FindsNothing := by
  induction parts with
  | nil => exact fun member => by cases member
  | cons part rest ih =>
      intro set member
      rcases List.mem_append.mp member with here | later
      · exact of_mem_partReports here
      · exact ih later

theorem givesUp_flawReport (flaw : CharSetFlaw) : (flawReport plan root position flaw).GivesUp := by
  cases flaw with
  | invalidEscape text => exact Or.inl rfl
  | propertyInRange => exact Or.inr rfl

/-- When a reading is given up, that is reported once and last. -/
theorem charSetReports_of_error {reading : Reading} {flaw : CharSetFlaw} (ended : reading.outcome = .error flaw) :
    ∃ quiet diagnostic, charSetReports plan ignoring root position reading = quiet ++ [diagnostic] ∧
      diagnostic.GivesUp ∧ ∀ other ∈ quiet, ¬other.GivesUp := by
  have told : charSetReports plan ignoring root position reading =
      partsReports plan ignoring root position .empty reading.added ++ [flawReport plan root position flaw] := by
    simp only [charSetReports, closingReports, ended]
  exact ⟨_, _, told, givesUp_flawReport flaw, fun other member => (of_mem_partsReports member).1⟩

/-- When it is not, the last report says if there are no characters. -/
theorem charSetReports_of_ok {reading : Reading} {pending : Pending} (ended : reading.outcome = .ok pending) :
    (∀ diagnostic ∈ charSetReports plan ignoring root position reading, ¬diagnostic.GivesUp) ∧
      ((reading.symbols ignoring).isEmpty = true ↔ ∃ diagnostic,
        (charSetReports plan ignoring root position reading).getLast? = some diagnostic ∧ diagnostic.FindsNothing) := by
  have quiet : ∀ diagnostic ∈ partsReports plan ignoring root position .empty reading.added,
      ¬diagnostic.GivesUp ∧ ¬diagnostic.FindsNothing := fun _ member => of_mem_partsReports member
  simp only [charSetReports, closingReports, ended]
  cases (reading.symbols ignoring).isEmpty with
  | true =>
      refine ⟨?_, iff_of_true rfl ⟨_, List.getLast?_concat, rfl, rfl⟩⟩
      rw [if_pos rfl, List.forall_mem_append]
      exact ⟨fun diagnostic member => (quiet diagnostic member).1, by simp [Diagnostic.GivesUp, Build.diagnostic]⟩
  | false =>
      rw [if_neg Bool.false_ne_true, List.append_nil]
      refine ⟨fun diagnostic member => (quiet diagnostic member).1, iff_of_false Bool.false_ne_true ?_⟩
      rintro ⟨diagnostic, last, nothing⟩
      exact (quiet diagnostic (List.mem_of_getLast? last)).2 nothing

theorem symbols_of_error {reading : Reading} {flaw : CharSetFlaw} (ended : reading.outcome = .error flaw) :
    reading.symbols ignoring = .empty := by
  simp only [Reading.symbols, Reading.allParts, ended]
  rfl

theorem scanTokens_of_ok {pending : Pending} {text : String} (ended : (readCharSet text).outcome = .ok pending)
    (before : Construction) : ∃ set after,
    scanTokens plan root position true (charSetTokens (charSetInside text.toList)) .empty .nothing before =
      .ok (some (set, pending)) after := by
  have scans := @tells_scanTokens plan root position (before.ignoresCase plan) true
    (charSetTokens (charSetInside text.toList)) .empty .nothing before rfl
  rw [← readCharSet, ended] at scans
  exact ⟨_, _, scans⟩

end Build

/-- A character set is read to its end or given up. It is cut into characters and escapes that follow one another, and
when it is given up, which only an escape can cause, that is reported once and last, and there are no characters. If it
is not, the set has the characters of parts that take up all of the text with no range left open, and the last report
says if it is empty. -/
theorem Build.charSet_allOrNothing (plan : Plan) (text : String) (position : Option Position) (before : Construction) :
    ∃ (set : IntervalSet) (told : List Diagnostic) (pieces : List (List Char)),
      charSet plan text position before = .ok set (before.tell told) ∧
      pieces.flatten = charSetInside text.toList ∧
      List.Forall₂ CharSetToken.Spells pieces (charSetTokens (charSetInside text.toList)) ∧
      told.countP (·.GivesUp) ≤ 1 ∧
      (∀ diagnostic ∈ told, diagnostic.GivesUp → told.getLast? = some diagnostic ∧ set.isEmpty = true ∧
        ∃ token ∈ charSetTokens (charSetInside text.toList), token.code? = none) ∧
      ((∀ diagnostic ∈ told, ¬diagnostic.GivesUp) →
        (set.isEmpty = true ↔ ∃ diagnostic, told.getLast? = some diagnostic ∧ diagnostic.FindsNothing) ∧
        (∃ found pending after,
          scanTokens plan text position true (charSetTokens (charSetInside text.toList)) .empty .nothing before =
            .ok (some (found, pending)) after ∧ pending.opensRange = false) ∧
        ∃ parts, SetPart.Spelled (charSetTokens (charSetInside text.toList)) parts ∧
          ∀ value, set.contains value = true ↔
            ∃ part ∈ parts, Interval.Covers (part.forms (before.ignoresCase plan)) value) := by
  obtain ⟨pieces, whole, spelled⟩ := charSetTokens_pieces (charSetInside text.toList)
  refine ⟨_, _, pieces, tells_charSet text before rfl, whole, spelled, ?_⟩
  cases ended : (readCharSet text).outcome with
  | error flaw =>
      obtain ⟨quiet, last, reported, givesUp, others⟩ := charSetReports_of_error ended
      rw [reported, symbols_of_error ended]
      have cause := (exists_of_readTokens_error _ ended).resolve_left fun ⟨set, same⟩ => by cases same
      refine ⟨?_, fun diagnostic member problem => ⟨?_, rfl, cause⟩, fun none => absurd givesUp (none last (by simp))⟩
      · have zero : quiet.countP (·.GivesUp) = 0 := List.countP_eq_zero.mpr (by simpa using others)
        simp [List.countP_append, zero, givesUp]
      · rcases List.mem_append.mp member with early | late
        · exact absurd problem (others diagnostic early)
        · rw [List.mem_singleton.mp late, List.getLast?_concat]
  | ok pending =>
      obtain ⟨quiet, tells⟩ := charSetReports_of_ok ended
      obtain ⟨closed, parts⟩ := readCharSet_complete text pending ended
      obtain ⟨found, after, scanned⟩ := scanTokens_of_ok ended before
      refine ⟨?_, fun diagnostic member problem => absurd problem (quiet diagnostic member), fun _ =>
        ⟨tells, ⟨found, pending, after, scanned, closed⟩, _, parts, fun value => ?_⟩⟩
      · rw [List.countP_eq_zero.mpr (by simpa using quiet)]
        exact Nat.zero_le 1
      · rw [Reading.symbols, SetPart.contains_gathered]
        simp only [Reading.allParts, Reading.added, ended]

end GrammarNetwork
