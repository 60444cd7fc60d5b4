import GrammarNetwork.Proofs.Literals
import GrammarNetwork.Proofs.SetParts

/-! Ranges in three ways: as an element of its own, as an item of a set and in the brackets of a character set, a range
has the same characters and the same warning. -/

namespace GrammarNetwork

open Literal

/-- The code point is written as an escape with its number. -/
def Spelling.isEscape : Spelling → Bool
  | .plain _ _ => false
  | .hexadecimal _ _ _ => true

/-- Every code point can be written as an escape. -/
theorem Spelling.exists_escape {code : Nat} (inSpace : code ≤ Unicode.maxCodePoint) :
    ∃ spelling : Spelling, spelling.isEscape = true ∧ spelling.code = code := by
  obtain ⟨digits, some, _, rfl⟩ := HexDigit.exists_toDigits code
  exact ⟨.hexadecimal digits some inSpace, rfl, rfl⟩

/-- However a code point is spelled, it is read. -/
theorem readTokens_spelling (atStart : Bool) (spelling : Spelling) (rest : List CharSetToken) (pending : Pending) :
    readTokens atStart (spelling.token :: rest) pending =
      (readTokens false rest (pending.take spelling.code).2).after (pending.take spelling.code).1 := by
  cases spelling with
  | plain character free =>
      simp only [Spelling.token, readTokens, free.2, false_and, if_false]
      rfl
  | hexadecimal digits some inSpace => rfl

theorem readCharSet_range (low high : Spelling) (ascends : low.code ≤ high.code) :
    readCharSet (SetItem.literal [.range low high ascends]) = ⟨[.range low.code high.code], .ok .nothing⟩ := by
  have dash : readTokens false [.character '-', high.token] (.codePoint low.code false) =
      readTokens false [high.token] (.codePoint low.code true) := by
    rw [readTokens, if_pos ⟨rfl, rfl, rfl, rfl, by simp⟩]
  rw [readCharSet, SetItem.charSetInside_literal, SetItem.charSetTokens_text]
  simp only [List.flatMap_cons, List.flatMap_nil, SetItem.tokens, List.append_nil]
  rw [readTokens_spelling]
  simp only [Pending.take, Pending.parts]
  rw [dash, readTokens_spelling]
  rfl

theorem Reading.symbols_range (ignoring : Bool) (first last : Int) :
    Reading.symbols ignoring ⟨[.range first last], .ok .nothing⟩ =
      IntervalSet.empty.insertAll (Unicode.CaseRange.forms ignoring first last) :=
  congrArg IntervalSet.ofIntervals (List.append_nil _)

/-- A lexer with a rule where case does not matter. -/
def caseInsensitiveLexer : Plan := .ofGrammar {
  kind := .lexer
  name := "L"
  fileName := "L.g4"
  caseInsensitive := true
  rules := #[{ name := "A", alternatives := [] }]
  tokens := ["A"]
  channels := []
  modes := [defaultModeName]
  actionCount := 0 }

namespace Build

variable {plan : Plan} {ignoring : Bool} {position : Option Position} {root : String}

/-- The warnings of a range with stray characters. -/
def strayWarnings (told : List Diagnostic) : List Diagnostic :=
  told.filter fun diagnostic => diagnostic.problem = .strayCharactersInRange

theorem strayWarnings_strayReports (range : Unicode.CaseRange) :
    strayWarnings (strayReports plan position range) = strayReports plan position range := by
  unfold strayReports
  split <;> rfl

theorem length_strayReports (range : Unicode.CaseRange) : (strayReports plan position range).length ≤ 1 := by
  unfold strayReports
  split <;> simp

theorem strayWarnings_rangeReports (set : IntervalSet) (first last : Int) :
    strayWarnings (rangeReports plan ignoring root position set first last) =
      strayReports plan position (Unicode.CaseRange.classify first last) := by
  have clash (range : Option Interval) : strayWarnings (range.toList.map (collision plan position root)) = [] := by
    cases range <;> rfl
  rw [rangeReports, strayWarnings, List.filter_append]
  exact (congrArg₂ (· ++ ·) (strayWarnings_strayReports _) (clash _)).trans (List.append_nil _)

/-- A range that is written in a character set is reported as it is when it stands alone. -/
theorem strayWarnings_charSetReports {first last : Int} (ascends : first ≤ last) :
    strayWarnings (charSetReports plan ignoring root position ⟨[.range first last], .ok .nothing⟩) =
      strayReports plan position (Unicode.CaseRange.classify first last) := by
  have rest (condition : Prop) [Decidable condition] :
      strayWarnings (if condition then [diagnostic plan .emptyLiteral position ["[]"]] else []) = [] := by
    split <;> rfl
  have ranged : strayWarnings (rangeReports plan ignoring root position .empty first last) = _ :=
    strayWarnings_rangeReports .empty first last
  simp only [charSetReports, closingReports, Reading.added, Pending.parts, partsReports, partReports,
    if_neg (Int.not_lt.mpr ascends), List.append_nil, List.nil_append]
  rw [strayWarnings, List.filter_append]
  exact (congrArg₂ (· ++ ·) ranged (rest _)).trans (List.append_nil _)

/-- In every rule a range of characters comes to the same set, and to the same warning of stray characters if any,
whether it is the label of a transition, is added to a set or stands between brackets, however its ends are spelled. -/
theorem range_agrees (plan : Plan) (position : Option Position) (root : String) (target : StateId) (first last : Nat)
    (ascends : first ≤ last) (inSpace : last ≤ Unicode.maxCodePoint) (before : Construction) :
    ∃ (label : Label) (set : IntervalSet) (strays added : List Diagnostic),
      rangeTransition plan target first last position before = .ok ⟨target, label⟩ (before.tell strays) ∧
      addRange plan root position .empty first last before = .ok set (before.tell added) ∧
      (∀ vocabulary action value, label.Emits vocabulary action [.symbol value] ↔ set.contains value = true) ∧
      strays.length ≤ 1 ∧ strayWarnings strays = strays ∧ strayWarnings added = strays ∧
      (∃ low high : Spelling, low.isEscape = true ∧ high.isEscape = true ∧ low.code = first ∧ high.code = last) ∧
      ∀ (low high : Spelling) (rises : low.code ≤ high.code), low.code = first → high.code = last →
        ∃ read, charSet plan (SetItem.literal [.range low high rises]) position before = .ok set (before.tell read) ∧
          strayWarnings read = strays := by
  have transition : Tells plan (before.ignoresCase plan) (rangeTransition plan target first last position) _ _ :=
    tells_rangeTransition target first last
  have adds : Tells plan (before.ignoresCase plan) (addRange plan root position .empty first last) _ _ :=
    tells_addRange .empty first last
  obtain ⟨low, lowEscape, lowCode⟩ := Spelling.exists_escape (ascends.trans inSpace)
  obtain ⟨high, highEscape, highCode⟩ := Spelling.exists_escape inSpace
  refine ⟨_, _, _, _, transition before rfl, adds before rfl, fun _ _ _ => ?_, length_strayReports _,
    strayWarnings_strayReports _, strayWarnings_rangeReports _ _ _,
    ⟨low, high, lowEscape, highEscape, lowCode, highCode⟩, ?_⟩
  · rw [emits_formsLabel, ← IntervalSet.contains_ofIntervals]
    rfl
  · rintro low high rises rfl rfl
    have reads : Tells plan (before.ignoresCase plan)
        (charSet plan (SetItem.literal [.range low high rises]) position) _ _ :=
      tells_charSet (SetItem.literal [.range low high rises])
    rw [readCharSet_range, Reading.symbols_range] at reads
    refine ⟨_, reads before rfl, ?_⟩
    exact strayWarnings_charSetReports (Int.ofNat_le.mpr ascends)

/-- In `'A'..'z'` the characters between the letters are reported in each of the three ways. -/
theorem range_agrees_mixed :
    strayReports caseInsensitiveLexer none (Unicode.CaseRange.classify 0x41 0x7A) =
      [⟨.strayCharactersInRange, "L.g4", none, ["A", "z", "[\\]^_`"]⟩] ∧
    ∃ (label : Label) (set : IntervalSet) (strays added : List Diagnostic),
      rangeTransition caseInsensitiveLexer 1 0x41 0x7A none (blank 0) = .ok ⟨1, label⟩ ((blank 0).tell strays) ∧
      addRange caseInsensitiveLexer "'A'..'z'" none .empty 0x41 0x7A (blank 0) = .ok set ((blank 0).tell added) ∧
      (∀ vocabulary action value, label.Emits vocabulary action [.symbol value] ↔ set.contains value = true) ∧
      strays.length ≤ 1 ∧ strayWarnings strays = strays ∧ strayWarnings added = strays ∧
      (∃ low high : Spelling, low.isEscape = true ∧ high.isEscape = true ∧ low.code = 0x41 ∧ high.code = 0x7A) ∧
      ∀ (low high : Spelling) (rises : low.code ≤ high.code), low.code = 0x41 → high.code = 0x7A →
        ∃ read, charSet caseInsensitiveLexer (SetItem.literal [.range low high rises]) none (blank 0) =
          .ok set ((blank 0).tell read) ∧ strayWarnings read = strays :=
  ⟨by decide +kernel,
    range_agrees caseInsensitiveLexer none "'A'..'z'" 1 0x41 0x7A (by decide) (by decide) (blank 0)⟩

end Build

end GrammarNetwork
