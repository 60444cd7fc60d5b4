import GrammarNetwork.Proofs.Literals
import GrammarNetwork.Proofs.SetParts

/-! Agreement of the readers of escapes. A character literal, a string literal and the escapes of a character set find the
end of an escape each in their own way, but what stands for a code point is the same for them: a string literal has exactly
one character where a character literal denotes it, and apart from three escapes, those of a character set are those of
literals. -/

namespace GrammarNetwork.Literal

open Unicode

theorem eq_nil_of_decode? {text : List Char} (decoded : decode? text = some []) : text = [] := by
  cases text with
  | nil => rfl
  | cons first rest =>
      rw [decode?] at decoded
      simp only [Option.bind_eq_bind, Option.bind_eq_some_iff, Option.some.injEq, reduceCtorEq, and_false,
        exists_false] at decoded

/-- A string literal with one character consists of a single piece. -/
theorem decode?_eq_singleton {text : List Char} {character : Char} :
    decode? text = some [character] ↔ Denotes text character.toNat := by
  constructor
  · intro decoded
    cases text with
    | nil => simp [decode?] at decoded
    | cons first rest =>
        rw [decode?] at decoded
        simp only [Option.bind_eq_bind, Option.bind_eq_some_iff, Option.some.injEq, List.cons.injEq] at decoded
        obtain ⟨count, _, code, reads, other, scalar, left, later, rfl, rfl⟩ := decoded
        have behind : rest.length ≤ count - 1 := List.drop_eq_nil_iff.mp (eq_nil_of_decode? later)
        have some : count ≠ 0 := by
          rintro rfl
          cases reads
        rw [List.take_of_length_le (by rw [List.length_cons]; omega)] at reads
        rw [scalar?_eq_some.mp scalar]
        exact .of_codePoint? reads
  · intro denotes
    have decoded := denotes.decode?_append (scalar?_toNat character) []
    rwa [List.append_nil, decode?, Option.map_some] at decoded

theorem stringValue?_eq_singleton {text : String} {character : Char} :
    stringValue? text = some (String.singleton character) ↔ charValue? text = some character.toNat := by
  rw [stringValue?, charValue?]
  cases unquote? text.toList with
  | none => simp
  | some inside =>
      simp only [Option.bind_eq_bind, Option.bind_some, codePoint?_eq_some, ← decode?_eq_singleton,
        Option.bind_eq_some_iff, Option.some.injEq]
      constructor
      · rintro ⟨characters, decoded, same⟩
        rw [decoded, ← String.toList_ofList (l := characters), same, String.toList_singleton]
      · intro decoded
        exact ⟨[character], decoded, String.singleton_eq_ofList.symm⟩

/-- The code points of characters are those that are no surrogates. -/
theorem exists_toNat_iff {code : Nat} (inSpace : code ≤ maxCodePoint) :
    (∃ character : Char, character.toNat = code) ↔ ¬(0xD800 ≤ code ∧ code ≤ 0xDFFF) := by
  rw [maxCodePoint] at inSpace
  constructor
  · rintro ⟨character, rfl⟩
    have valid : character.toNat < 0xD800 ∨ 0xDFFF < character.toNat ∧ character.toNat < 0x110000 := character.valid
    omega
  · intro noSurrogate
    have valid : code.isValidChar := by
      unfold Nat.isValidChar
      omega
    exact ⟨Char.ofNatAux code valid, scalar?_eq_some.mp (dif_pos valid)⟩

theorem hexCodePoint?_le {digits : List Char} {code : Nat} (found : hexCodePoint? digits = some code) :
    code ≤ maxCodePoint := by
  simp only [hexCodePoint?] at found
  grind

theorem simpleEscape?_le {letter : Char} {code : Nat} (known : simpleEscape? letter = some code) :
    code ≤ maxCodePoint := by
  unfold simpleEscape? at known
  split at known <;> cases known <;> decide

theorem Denotes.inSpace {text : List Char} {code : Nat} (denotes : Denotes text code) : code ≤ maxCodePoint := by
  cases denotes with
  | plain free => exact toNat_le_maxCodePoint _
  | quote => exact toNat_le_maxCodePoint _
  | letter known => exact simpleEscape?_le known
  | digits four number => exact hexCodePoint?_le number
  | braces number => exact hexCodePoint?_le number

theorem denotes_of_unicodeEscape {text : List Char} {code : Nat}
    (reads : unicodeEscape text = ⟨.codePoint code, text.length + 2⟩) : Denotes ('\\' :: 'u' :: text) code := by
  by_cases braced : ∃ digits, text = '{' :: digits
  · obtain ⟨digits, rfl⟩ := braced
    simp only [unicodeEscape] at reads
    split at reads
    · rename_i count found
      obtain ⟨inside, rest, _, rfl, rfl⟩ := exists_of_findIdx? found
      split at reads
      · rename_i code number
        simp only [Escape.mk.injEq, EscapeMeaning.codePoint.injEq, List.length_cons, List.length_append] at reads
        obtain ⟨rfl, whole⟩ := reads
        obtain rfl : rest = [] := List.length_eq_zero_iff.mp (by omega)
        rw [List.take_left] at number
        exact .braces number
      · simp at reads
    · simp at reads
  · rw [unicodeEscape_of_ne fun digits same => braced ⟨digits, same⟩] at reads
    split at reads
    · simp at reads
    · split at reads
      · rename_i code number
        simp only [Escape.mk.injEq, EscapeMeaning.codePoint.injEq] at reads
        obtain ⟨rfl, whole⟩ := reads
        have four : text.length = 4 := by omega
        rw [List.take_of_length_le (Nat.le_of_eq four)] at number
        exact .digits four number
      · simp at reads

theorem propertyEscape_ne {inverted : Bool} {text : List Char} {code length : Nat} :
    propertyEscape inverted text ≠ ⟨.codePoint code, length⟩ := by
  unfold propertyEscape
  repeat' split
  all_goals simp

/-- An escape of a character set that stands for a code point is one of literals, unless it is that of a mark. -/
theorem denotes_of_readEscape {text : List Char} {code : Nat}
    (reads : readEscape ('\\' :: text) = ⟨.codePoint code, text.length + 1⟩) (noDash : text.head? ≠ some '-')
    (noBracket : text.head? ≠ some ']') : Denotes ('\\' :: text) code := by
  unfold readEscape at reads
  split at reads
  · rename_i rest same
    obtain rfl := (List.cons.inj same).2
    exact denotes_of_unicodeEscape reads
  · exact absurd reads propertyEscape_ne
  · exact absurd reads propertyEscape_ne
  · rename_i same
    exact absurd (by rw [(List.cons.inj same).2]; rfl) noDash
  · rename_i same
    exact absurd (by rw [(List.cons.inj same).2]; rfl) noBracket
  · rename_i letter rest _ _ _ _ _ same
    obtain rfl := (List.cons.inj same).2
    split at reads
    · rename_i known
      simp only [Escape.mk.injEq, EscapeMeaning.codePoint.injEq, List.length_cons] at reads
      obtain ⟨rfl, whole⟩ := reads
      obtain rfl : rest = [] := List.length_eq_zero_iff.mp (by omega)
      exact .letter known
    · simp at reads
  · simp at reads

theorem not_denotes {letter : Char} (unknown : simpleEscape? letter = none) (noQuote : letter ≠ '\'')
    (noUnicode : letter ≠ 'u') (text : List Char) (code : Nat) : ¬Denotes ('\\' :: letter :: text) code := by
  intro denotes
  cases denotes with
  | quote => exact noQuote rfl
  | letter known =>
      rw [unknown] at known
      cases known
  | digits four number => exact noUnicode rfl
  | braces number => exact noUnicode rfl

/-- However much of a text is taken, no escape with this letter stands for a code point. -/
theorem codePoint?_take_eq_none {letter : Char} (unknown : simpleEscape? letter = none) (noQuote : letter ≠ '\'')
    (noUnicode : letter ≠ 'u') (rest : List Char) : ∀ count,
      codePoint? (('\\' :: letter :: rest).take count) = none
  | 0 => rfl
  | 1 => rfl
  | count + 2 => by
      rw [Option.eq_none_iff_forall_ne_some]
      intro code found
      exact not_denotes unknown noQuote noUnicode (rest.take count) code (.of_codePoint? found)

theorem head?_take_ne {text : List Char} {mark : Char} (free : text.head? ≠ some mark) (count : Nat) :
    (text.take count).head? ≠ some mark := by
  rw [List.head?_take]
  split <;> simp [free]

/-- The escapes of character sets and of literals, but for those that only one of the two has. -/
theorem readEscape_iff {rest : List Char} {count code : Nat} :
    (rest.head? ≠ some '-' ∧ rest.head? ≠ some ']' ∧ readEscape ('\\' :: rest) = ⟨.codePoint code, count⟩) ↔
      rest.head? ≠ some '\'' ∧ count ≤ rest.length + 1 ∧ codePoint? (('\\' :: rest).take count) = some code := by
  constructor
  · rintro ⟨noDash, noBracket, reads⟩
    obtain ⟨taken, bound, length, alone⟩ := readEscape_local rest
    simp only [reads] at length alone
    subst length
    have whole : (rest.take taken).length = taken := List.length_take_of_le bound
    refine ⟨?_, Nat.succ_le_succ bound, ?_⟩
    · intro quote
      obtain ⟨more, rfl⟩ := List.head?_eq_some_iff.mp quote
      cases reads
    · rw [List.take_succ_cons, codePoint?_eq_some]
      exact denotes_of_readEscape (by rw [whole, alone]) (head?_take_ne noDash taken) (head?_take_ne noBracket taken)
  · rintro ⟨noQuote, bound, found⟩
    have noMark {mark : Char} (unknown : simpleEscape? mark = none) (other : mark ≠ '\'') (noUnicode : mark ≠ 'u') :
        rest.head? ≠ some mark := by
      intro head
      obtain ⟨more, rfl⟩ := List.head?_eq_some_iff.mp head
      rw [codePoint?_take_eq_none unknown other noUnicode] at found
      cases found
    refine ⟨noMark rfl (by decide) (by decide), noMark rfl (by decide) (by decide), ?_⟩
    cases count with
    | zero => cases found
    | succ taken =>
        have denotes : Denotes ('\\' :: rest.take taken) code := .of_codePoint? found
        have reads := denotes.readEscape_append (head?_take_ne noQuote taken) (rest.drop taken)
        rwa [List.take_append_drop, List.length_take_of_le (Nat.le_of_succ_le_succ bound)] at reads

/-- A string literal has exactly one character where a character literal denotes it, and that is every code point but a
surrogate. An escape of a character set stands for a code point, and takes so many characters, exactly if these are an
escape of a literal for it; the escapes of `-` and `]` are those of character sets only, and the one of a quote that of
literals only. -/
theorem readers_agree :
    (∀ (text : String) (code : Nat),
      (∃ character : Char, stringValue? text = some (String.singleton character) ∧ character.toNat = code) ↔
        charValue? text = some code ∧ ¬(0xD800 ≤ code ∧ code ≤ 0xDFFF)) ∧
    (∀ (rest : List Char) (count code : Nat),
      (rest.head? ≠ some '-' ∧ rest.head? ≠ some ']' ∧ readEscape ('\\' :: rest) = ⟨.codePoint code, count⟩) ↔
        rest.head? ≠ some '\'' ∧ count ≤ rest.length + 1 ∧ codePoint? (('\\' :: rest).take count) = some code) ∧
    ∀ rest : List Char,
      (readEscape ('\\' :: '-' :: rest) = ⟨.codePoint '-'.toNat, 2⟩ ∧
        ∀ count, codePoint? (('\\' :: '-' :: rest).take count) = none) ∧
      (readEscape ('\\' :: ']' :: rest) = ⟨.codePoint ']'.toNat, 2⟩ ∧
        ∀ count, codePoint? (('\\' :: ']' :: rest).take count) = none) ∧
      readEscape ('\\' :: '\'' :: rest) = ⟨.invalid, 2⟩ ∧
        codePoint? (('\\' :: '\'' :: rest).take 2) = some '\''.toNat := by
  refine ⟨fun text code => ?_, fun rest count code => readEscape_iff, fun rest =>
    ⟨⟨rfl, codePoint?_take_eq_none rfl (by decide) (by decide) rest⟩,
      ⟨rfl, codePoint?_take_eq_none rfl (by decide) (by decide) rest⟩, rfl, rfl⟩⟩
  simp only [stringValue?_eq_singleton]
  constructor
  · rintro ⟨character, found, rfl⟩
    exact ⟨found, (exists_toNat_iff (toNat_le_maxCodePoint character)).mp ⟨character, rfl⟩⟩
  · rintro ⟨found, noSurrogate⟩
    obtain ⟨inside, _, reads⟩ := Option.bind_eq_some_iff.mp found
    obtain ⟨character, rfl⟩ := (exists_toNat_iff (Denotes.of_codePoint? reads).inSpace).mpr noSurrogate
    exact ⟨character, found, rfl⟩

end GrammarNetwork.Literal
