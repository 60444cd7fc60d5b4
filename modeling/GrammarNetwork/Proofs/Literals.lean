import GrammarNetwork.Proofs.CharSets

/-! Literals that are written: a code point is written as a piece of a literal that stands for it, so a text is read back from
the pieces of its characters. -/

namespace GrammarNetwork

namespace HexDigit

theorem number_append (front rest : List HexDigit) :
    number (front ++ rest) = number front * 16 ^ rest.length + number rest := by
  simp only [number, List.reverse_append, List.map_append, Nat.ofDigits_append, List.length_map, List.length_reverse]
  ring

theorem number_zeros (count : Nat) (digits : List HexDigit) :
    number (List.replicate count ⟨0, true⟩ ++ digits) = number digits := by
  have nothing : number (List.replicate count ⟨0, true⟩) = 0 := by
    simp [number, List.map_replicate]
  rw [number_append, nothing, Nat.zero_mul, Nat.zero_add]

/-- The digits of a number, with capital letters. -/
theorem exists_toDigits (value : Nat) : ∃ digits : List HexDigit, digits ≠ [] ∧
    (Nat.toDigits 16 value).map Char.toUpper = digits.map character ∧ number digits = value := by
  induction value using Nat.strongRecOn with
  | ind value ih =>
      by_cases small : value < 16
      · refine ⟨[⟨⟨value, small⟩, true⟩], by simp, ?_, by simp [number]⟩
        rw [Nat.toDigits_of_lt_base small]
        rfl
      · obtain ⟨front, _, same, number⟩ := ih (value / 16) (by omega)
        refine ⟨front ++ [⟨⟨value % 16, Nat.mod_lt _ (by decide)⟩, true⟩], by simp, ?_, ?_⟩
        · rw [Nat.toDigits_of_base_le (by decide) (by omega), List.map_append, same, List.map_append]
          rfl
        · rw [number_append, number]
          simpa [HexDigit.number] using Nat.div_add_mod' value 16

end HexDigit

namespace Literal

open Unicode

theorem hexCodePoint?_eq_none {digits : List HexDigit} (beyond : maxCodePoint < HexDigit.number digits) :
    hexCodePoint? (digits.map HexDigit.character) = none := by
  simp only [hexCodePoint?, ← HexDigit.number_eq_foldl, if_neg (Nat.not_le.mpr beyond), ite_self]

/-- A number is read back from its digits, however many zeros are in front of them, if it is a code point. -/
theorem hexCodePoint?_hexText (width value : Nat) :
    hexCodePoint? (hexText width value) = if value ≤ maxCodePoint then some value else none := by
  obtain ⟨digits, written, same, rfl⟩ := HexDigit.exists_toDigits value
  have padded : hexText width (HexDigit.number digits) =
      (List.replicate (width - digits.length) (⟨0, true⟩ : HexDigit) ++ digits).map HexDigit.character := by
    simp only [hexText, same, List.length_map, List.map_append, List.map_replicate]
    rfl
  rw [padded]
  split
  · rename_i inSpace
    rw [← HexDigit.number_zeros (width - digits.length)] at inSpace
    rw [HexDigit.hexCodePoint?_characters (by simp [written]) inSpace, HexDigit.number_zeros]
  · rename_i beyond
    exact hexCodePoint?_eq_none (by rw [HexDigit.number_zeros]; omega)

theorem length_hexText {width value : Nat} (positive : 0 < width) (fits : value < 16 ^ width) :
    (hexText width value).length = width := by
  have short := (Nat.length_toDigits_le_iff (by decide) positive).mpr fits
  simp only [hexText, List.length_append, List.length_replicate, List.length_map]
  omega

/-- A character is a code point that is no surrogate. -/
theorem scalar?_eq_some {code : Nat} {character : Char} : scalar? code = some character ↔ character.toNat = code := by
  by_cases valid : code.isValidChar
  · rw [scalar?, dif_pos valid, Option.some.injEq]
    constructor
    · rintro rfl
      rfl
    · rintro rfl
      rfl
  · rw [scalar?, dif_neg valid]
    refine iff_of_false (by simp) ?_
    rintro rfl
    exact valid character.valid

theorem scalar?_toNat (character : Char) : scalar? character.toNat = some character :=
  scalar?_eq_some.mpr rfl

theorem toNat_le_maxCodePoint (character : Char) : character.toNat ≤ maxCodePoint := by
  have valid : character.toNat < 0xD800 ∨ 0xDFFF < character.toNat ∧ character.toNat < 0x110000 := character.valid
  rw [maxCodePoint]
  omega

/-- What is written for a code point stands for it, also if it is a surrogate. -/
theorem denotes_encodeChar {code : Nat} (inSpace : code ≤ maxCodePoint) : Denotes (encodeChar code) code := by
  unfold encodeChar
  split
  case h_1 | h_2 | h_3 | h_4 | h_5 | h_6 => exact .letter rfl
  case h_7 => exact .quote
  case h_8 noBackslash _ =>
    split
    · have same : (Char.ofNat code).toNat = code := by
        rw [Char.ofNat, dif_pos (Or.inl (by omega))]
        rfl
      have free : Char.ofNat code ≠ '\\' := by
        intro backslash
        rw [backslash] at same
        exact noBackslash same.symm
      simpa only [same] using Denotes.plain free
    · split
      · exact .digits (length_hexText (by decide) (by omega)) ((hexCodePoint?_hexText 4 code).trans (if_pos inSpace))
      · exact .braces ((hexCodePoint?_hexText 6 code).trans (if_pos inSpace))

theorem encodeChar_of_beyond {code : Nat} (beyond : maxCodePoint < code) :
    encodeChar code = '\\' :: 'u' :: '{' :: (hexText 6 code ++ ['}']) := by
  rw [maxCodePoint] at beyond
  unfold encodeChar
  split
  case h_8 =>
    rw [if_neg (by omega), if_neg (by omega)]
    rfl
  all_goals omega

/-- The inside of a literal. -/
def inside (literal : String) : List Char :=
  literal.toList.tail.dropLast

def quoted (inside : List Char) : String :=
  String.ofList ('\'' :: inside ++ ['\''])

theorem unquote?_quoted (text : List Char) : unquote? (quoted text).toList = some text := by
  simp [quoted, unquote?, dropLast?_append]

theorem charLiteral_natCast (code : Nat) : charLiteral code = quoted (encodeChar code) := by
  rw [charLiteral, if_neg (Int.not_lt.mpr (Int.natCast_nonneg code))]
  rfl

theorem inside_charLiteral (code : Nat) : inside (charLiteral code) = encodeChar code := by
  simp [charLiteral_natCast, inside, quoted]

theorem charValue?_charLiteral (code : Nat) :
    charValue? (charLiteral code) = if code ≤ maxCodePoint then some code else none := by
  rw [charLiteral_natCast, charValue?, unquote?_quoted, Option.bind_some]
  split
  · rename_i inSpace
    exact (denotes_encodeChar inSpace).codePoint?
  · rename_i beyond
    have read : (dropLast? '}' (hexText 6 code ++ ['}'])).bind hexCodePoint? = none := by
      rw [dropLast?_append, Option.bind_some, hexCodePoint?_hexText, if_neg beyond]
    rw [encodeChar_of_beyond (Nat.not_le.mp beyond)]
    exact read

theorem decode?_encode (text : List Char) :
    decode? (text.flatMap fun character => encodeChar character.toNat) = some text := by
  induction text with
  | nil => simp [decode?]
  | cons character text ih =>
      have written : Denotes (encodeChar character.toNat) character.toNat :=
        denotes_encodeChar (toNat_le_maxCodePoint character)
      rw [List.flatMap_cons, written.decode?_append (scalar?_toNat character), ih]
      rfl

/-- A text is read back from the literals of its characters, their insides put together between quotes, and every code
point, surrogates included, from its literal. Nothing is read from the literals of other numbers. -/
theorem charLiteral_read :
    (∀ text : String,
      stringValue? (quoted (text.toList.flatMap fun character => inside (charLiteral character.toNat))) = some text) ∧
    ∀ code : Int, charValue? (charLiteral code) =
      if 0 ≤ code ∧ code ≤ maxCodePoint then some code.toNat else none := by
  refine ⟨fun text => ?_, fun code => ?_⟩
  · simp only [inside_charLiteral, stringValue?, unquote?_quoted, Option.bind_eq_bind, Option.bind_some, decode?_encode,
      String.ofList_toList]
  · by_cases negative : code < 0
    · rw [charLiteral, if_pos negative, if_neg (by omega)]
      rfl
    · lift code to Nat using Int.not_lt.mp negative
      simp [charValue?_charLiteral]

end Literal

end GrammarNetwork
