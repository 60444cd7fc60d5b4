import Mathlib.Data.List.TakeWhile
import GrammarNetwork.Literal.Escape

/-! Escapes: what stands for a code point inside of a literal. A reader finds the end of such a piece by itself, however the
text goes on, so pieces that stand one behind the other do not run together. -/

namespace GrammarNetwork.Literal

open Unicode

section Marks

variable {mark : Char} {text inside : List Char}

theorem dropLast?_append (mark : Char) (text : List Char) : dropLast? mark (text ++ [mark]) = some text := by
  simp [dropLast?]

theorem dropLast?_eq_some (found : dropLast? mark text = some inside) : text = inside ++ [mark] := by
  unfold dropLast? at found
  split at found
  · rename_i ends
    cases found
    obtain ⟨front, rfl⟩ := List.getLast?_eq_some_iff.mp ends
    simp
  · cases found

/-- The end of what is in braces is found. -/
theorem findIdx?_append_mark (free : mark ∉ inside) (rest : List Char) :
    (inside ++ mark :: rest).findIdx? (· == mark) = some inside.length := by
  have none : inside.findIdx? (· == mark) = none := by
    rw [List.findIdx?_eq_none_iff]
    intro character member
    rw [beq_eq_false_iff_ne]
    rintro rfl
    exact free member
  rw [List.findIdx?_append, none]
  simp [List.findIdx?_cons]

end Marks

/-- The text stands for this code point inside a literal: a character as it is, or an escape. -/
inductive Denotes : List Char → Nat → Prop
  | plain {character : Char} (free : character ≠ '\\') : Denotes [character] character.toNat
  | quote : Denotes ['\\', '\''] '\''.toNat
  | letter {letter : Char} {code : Nat} (known : simpleEscape? letter = some code) : Denotes ['\\', letter] code
  | digits {digits : List Char} {code : Nat} (four : digits.length = 4) (number : hexCodePoint? digits = some code) :
      Denotes ('\\' :: 'u' :: digits) code
  | braces {digits : List Char} {code : Nat} (number : hexCodePoint? digits = some code) :
      Denotes ('\\' :: 'u' :: '{' :: (digits ++ ['}'])) code

variable {text digits : List Char} {letter : Char} {code : Nat}

theorem isHexDigit_of_hexCodePoint? (found : hexCodePoint? digits = some code) :
    ∀ digit ∈ digits, isHexDigit digit = true := by
  unfold hexCodePoint? at found
  split at found
  · cases found
  · rename_i valid
    simp only [Bool.or_eq_true, Bool.not_eq_true', not_or, Bool.not_eq_false, List.all_eq_true] at valid
    exact valid.2

theorem notMem_of_hexCodePoint? (found : hexCodePoint? digits = some code) {character : Char}
    (other : isHexDigit character = false) : character ∉ digits := by
  intro member
  rw [isHexDigit_of_hexCodePoint? found character member] at other
  cases other

/-- Four digits do not begin with a brace. -/
theorem exists_four (four : digits.length = 4) (number : hexCodePoint? digits = some code) :
    ∃ first second third fourth, digits = [first, second, third, fourth] ∧ first ≠ '{' := by
  have noBrace : '{' ∉ digits := notMem_of_hexCodePoint? number (by decide)
  match digits, four with
  | [first, second, third, fourth], _ =>
      refine ⟨first, second, third, fourth, rfl, ?_⟩
      rintro rfl
      exact noBrace (by simp)

theorem letter_ne_unicode (known : simpleEscape? letter = some code) : letter ≠ 'u' := by
  rintro rfl
  cases known

theorem letter_ne_quote (known : simpleEscape? letter = some code) : letter ≠ '\'' := by
  rintro rfl
  cases known

namespace Denotes

theorem of_codePoint? (found : codePoint? text = some code) : Denotes text code := by
  unfold codePoint? at found
  split at found
  · obtain ⟨digits, inner, number⟩ := Option.bind_eq_some_iff.mp found
    rw [dropLast?_eq_some inner]
    exact .braces number
  · split at found
    · rename_i four
      exact .digits four found
    · cases found
  · cases found
    exact .quote
  · exact .letter found
  · cases found
  · rename_i character free
    cases found
    exact .plain free
  · cases found

theorem codePoint? (denotes : Denotes text code) : codePoint? text = some code := by
  cases denotes with
  | plain free => simp [Literal.codePoint?]
  | quote => rfl
  | letter known =>
      -- The equation for a letter asks for this.
      have noQuote := letter_ne_quote known
      simp [Literal.codePoint?, letter_ne_unicode known, known]
  | digits four number =>
      obtain ⟨first, second, third, fourth, rfl, free⟩ := exists_four four number
      simpa [Literal.codePoint?, free] using number
  | braces number =>
      simp [Literal.codePoint?, dropLast?_append, number]

/-- A string literal takes what stands for the code point and nothing behind it. -/
theorem pieceLength?_append (denotes : Denotes text code) (rest : List Char) :
    pieceLength? (text ++ rest) = some text.length := by
  cases denotes with
  | plain free => simp [pieceLength?, free]
  | quote => rfl
  | letter known => simp [pieceLength?, letter_ne_unicode known]
  | digits four number =>
      have hexadecimal := isHexDigit_of_hexCodePoint? number
      obtain ⟨first, second, third, fourth, rfl, free⟩ := exists_four four number
      simp only [List.mem_cons, List.not_mem_nil, or_false, forall_eq_or_imp, forall_eq] at hexadecimal
      simp [pieceLength?, free, hexadecimal]
  | @braces digits code number =>
      have hexadecimal : digits.all isHexDigit = true := List.all_eq_true.mpr (isHexDigit_of_hexCodePoint? number)
      have closed : '}' ∉ digits := notMem_of_hexCodePoint? number (by decide)
      have ends := findIdx?_append_mark closed rest
      simp [pieceLength?, ends, hexadecimal]

theorem decode?_append (denotes : Denotes text code) {character : Char} (scalar : scalar? code = some character)
    (rest : List Char) : decode? (text ++ rest) = (decode? rest).map (character :: ·) := by
  have piece := denotes.pieceLength?_append rest
  have reads := denotes.codePoint?
  cases text with
  | nil => cases reads
  | cons first more =>
      have taken : (first :: more ++ rest).take (first :: more).length = first :: more := List.take_left
      have left : (more ++ rest).drop ((first :: more).length - 1) = rest := List.drop_left
      rw [List.cons_append] at piece taken ⊢
      rw [decode?]
      simp only [piece, taken, reads, scalar, left, Option.bind_eq_bind, Option.bind_some]
      cases decode? rest <;> rfl

/-- A character set reads an escape of literals in the same way, unless it is that of a quote. -/
theorem readEscape_append (denotes : Denotes ('\\' :: text) code) (noQuote : text.head? ≠ some '\'')
    (rest : List Char) : readEscape ('\\' :: (text ++ rest)) = ⟨.codePoint code, text.length + 1⟩ := by
  cases denotes with
  | plain free => exact absurd rfl free
  | quote => exact absurd rfl noQuote
  | letter known =>
      unfold simpleEscape? at known
      split at known <;> cases known <;> rfl
  | digits four number =>
      obtain ⟨first, second, third, fourth, rfl, free⟩ := exists_four four number
      simp [readEscape, unicodeEscape, free, number]
  | @braces digits code number =>
      have closed : '}' ∉ digits := notMem_of_hexCodePoint? number (by decide)
      have ends := findIdx?_append_mark closed rest
      simp [readEscape, unicodeEscape, ends, number]

end Denotes

theorem codePoint?_eq_some : codePoint? text = some code ↔ Denotes text code :=
  ⟨Denotes.of_codePoint?, Denotes.codePoint?⟩

end GrammarNetwork.Literal
