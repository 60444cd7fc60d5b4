import GrammarNetwork.Description.Text
import GrammarNetwork.Proofs.Escapes

/-! Texts of descriptions: an element, a suffix or a command that has a text of its own is read back from it. The
kinds of elements are told apart by how their texts begin and end, so a literal must not look like a range. -/

namespace GrammarNetwork

open Literal Unicode

/-- A token that a description can name: letters, numerals and underscores after an upper case letter. -/
def IsTokenName (name : String) : Prop :=
  (∀ character ∈ name.toList, Description.isNameCharacter character = true) ∧
    name.toList.head?.any isUppercase = true
deriving Decidable

/-- A text in single quotes in which a quote stands only behind a backslash. -/
def IsLiteral (text : String) : Prop :=
  ∃ inside, text.toList = '\'' :: inside ++ ['\''] ∧
    ∀ before after, inside = before ++ '\'' :: after → before.getLast? = some '\\'

def IsCharSet (text : String) : Prop :=
  ∃ inside, text.toList = '[' :: inside ++ [']']

/-- A literal that denotes one character. -/
def IsCharacter (text : String) : Prop :=
  (charValue? text).isSome = true
deriving Decidable

/-- A text without white space at its ends. -/
def IsTrimmed (text : String) : Prop :=
  Description.trimmed text.toList = text
deriving Decidable

/-- A command that a description can give: its name is not empty and opens no parenthesis. -/
structure Command.Describable (command : Command) : Prop where
  name : command.name ≠ ""
  plain : '(' ∉ command.name.toList
  trimmed : IsTrimmed command.name
  argument : ∀ argument, command.argument = some argument → IsTrimmed argument
  position : command.position = none

namespace Description

section Marks

variable {text front rest : List Char} {character : Char}

theorem isQuoted_eq_true : isQuoted text = true ↔ ∃ inside, text = '\'' :: inside ++ ['\''] := by
  constructor
  · intro quoted
    obtain ⟨inside, found⟩ := Option.isSome_iff_exists.mp quoted
    unfold unquote? at found
    split at found
    · exact ⟨inside, by rw [dropLast?_eq_some found, List.cons_append]⟩
    · cases found
  · rintro ⟨inside, rfl⟩
    simp [isQuoted, unquote?, dropLast?_append]

theorem isQuoted_of_head (other : character ≠ '\'') : isQuoted (character :: rest) = false := by
  rw [Bool.eq_false_iff, ne_eq, isQuoted_eq_true]
  rintro ⟨inside, same⟩
  exact other (List.cons.inj same).1

/-- Where a mark is found, there is one. -/
theorem rangeMark?_eq_some : ∀ {text : List Char} {mark : Nat}, rangeMark? text = some mark →
    ∃ front behind, text = front ++ '\'' :: '.' :: '.' :: '\'' :: behind ∧ front.length = mark
  | [], _, found => by cases found
  | head :: rest, mark, found => by
      unfold rangeMark? at found
      split at found
      · cases found
      · rename_i behind same
        cases found
        exact ⟨[], behind, same, rfl⟩
      · rename_i other _ _ same
        cases same
        obtain ⟨earlier, inside, rfl⟩ := Option.map_eq_some_iff.mp found
        obtain ⟨front, behind, rfl, length⟩ := rangeMark?_eq_some inside
        exact ⟨head :: front, behind, rfl, by simp [length]⟩

theorem rangeMark?_cons_of_ne (other : character ≠ '\'') :
    rangeMark? (character :: rest) = (rangeMark? rest).map (· + 1) := by
  rw [rangeMark?]
  intro tail quote
  exact absurd quote other

/-- A quote with something else than a dot behind it begins no mark. -/
theorem rangeMark?_quote_of_ne (other : character ≠ '.') :
    rangeMark? ('\'' :: character :: rest) = (rangeMark? (character :: rest)).map (· + 1) := by
  rw [rangeMark?]
  intro tail _ same
  exact other (List.cons.inj same).1

theorem rangeMark?_append (free : '\'' ∉ front) :
    rangeMark? (front ++ rest) = (rangeMark? rest).map (· + front.length) := by
  induction front with
  | nil => simp
  | cons head front ih =>
      simp only [List.mem_cons, not_or] at free
      rw [List.cons_append, rangeMark?_cons_of_ne (Ne.symm free.1), ih free.2, Option.map_map]
      congr 1

/-- The inside of a literal for one character is that character or an escape, in which a quote comes last. -/
theorem codePoint?_cases {inside : List Char} (denotes : (codePoint? inside).isSome = true) :
    (∃ character, inside = [character]) ∨ inside = ['\\', '\''] ∨
      ∃ letters, inside = '\\' :: letters ∧ '\'' ∉ letters := by
  have noQuote {digits : List Char} {code : Nat} (number : hexCodePoint? digits = some code) : '\'' ∉ digits :=
    notMem_of_hexCodePoint? number (by decide)
  obtain ⟨code, found⟩ := Option.isSome_iff_exists.mp denotes
  cases Denotes.of_codePoint? found with
  | plain free => exact Or.inl ⟨_, rfl⟩
  | quote => exact Or.inr (Or.inl rfl)
  | letter known => exact Or.inr (Or.inr ⟨_, rfl, by simp [Ne.symm (letter_ne_quote known)]⟩)
  | digits four number => exact Or.inr (Or.inr ⟨_, rfl, by simp [noQuote number]⟩)
  | braces number => exact Or.inr (Or.inr ⟨_, rfl, by simp [noQuote number]⟩)

/-- The first mark in a range is the one between its ends. -/
theorem rangeMark?_range {inside : List Char} (denotes : (codePoint? inside).isSome = true) (rest : List Char) :
    rangeMark? ('\'' :: inside ++ '\'' :: '.' :: '.' :: '\'' :: rest) = some (inside.length + 1) := by
  have mark : rangeMark? ('\'' :: '.' :: '.' :: '\'' :: rest) = some 0 := by rw [rangeMark?]
  rcases codePoint?_cases denotes with ⟨character, rfl⟩ | rfl | ⟨letters, rfl, free⟩
  · have second : rangeMark? (character :: '\'' :: '.' :: '.' :: '\'' :: rest) = some 1 := by
      by_cases quote : character = '\''
      · subst quote
        rw [rangeMark?_quote_of_ne (by decide), mark, Option.map_some]
      · rw [rangeMark?_cons_of_ne quote, mark, Option.map_some]
    have opening : rangeMark? ('\'' :: character :: '\'' :: '.' :: '.' :: '\'' :: rest) =
        (rangeMark? (character :: '\'' :: '.' :: '.' :: '\'' :: rest)).map (· + 1) := by
      rw [rangeMark?]
      intro tail _ same
      simp at same
    exact opening.trans (by rw [second]; rfl)
  · rfl
  · have letters : rangeMark? (letters ++ '\'' :: '.' :: '.' :: '\'' :: rest) = some letters.length := by
      rw [rangeMark?_append free, mark]
      simp
    simp only [List.cons_append]
    rw [rangeMark?_quote_of_ne (by decide), rangeMark?_cons_of_ne (by decide), letters]
    rfl

theorem splitRange?_of_not_isQuoted (bare : isQuoted text = false) : splitRange? text = none := by
  simp [splitRange?, bare]

/-- A literal is no range: a mark in it can only end with the closing quote. -/
theorem splitRange?_literal {inside : List Char}
    (escaped : ∀ before after, inside = before ++ '\'' :: after → before.getLast? = some '\\') :
    splitRange? ('\'' :: inside ++ ['\'']) = none := by
  have quoted : isQuoted ('\'' :: inside ++ ['\'']) = true := isQuoted_eq_true.mpr ⟨inside, rfl⟩
  cases found : rangeMark? ('\'' :: inside ++ ['\'']) with
  | none => simp only [splitRange?, quoted, found, Option.bind_eq_bind]; rfl
  | some mark =>
      obtain ⟨front, behind, same, rfl⟩ := rangeMark?_eq_some found
      obtain rfl : behind = [] := by
        -- otherwise the second quote of the mark is inside the literal, behind a dot
        rcases List.eq_nil_or_concat behind with none | ⟨middle, final, rfl⟩
        · exact none
        · exfalso
          have shorter : '\'' :: inside = front ++ '\'' :: '.' :: '.' :: '\'' :: middle := by
            have ending : ('\'' :: inside) ++ ['\''] = (front ++ '\'' :: '.' :: '.' :: '\'' :: middle) ++ [final] := by
              simpa using same
            exact (List.append_inj' ending rfl).1
          cases front with
          | nil =>
              have ends := escaped ['.', '.'] middle (by simpa using shorter)
              simp at ends
          | cons head front =>
              have ends := escaped (front ++ ['\'', '.', '.']) middle (by simpa using (List.cons.inj shorter).2)
              simp at ends
      have ending : List.drop (front.length + 3) ('\'' :: inside ++ ['\'']) = ['\''] := by
        rw [same]
        simp [List.drop_append]
      have single : isQuoted ['\''] = false := by decide
      simp only [splitRange?, quoted, found, Option.bind_eq_bind, Option.bind_some, ending, single]
      simp

theorem splitRange?_range {first last : List Char} (left : ((unquote? first).bind codePoint?).isSome = true)
    (right : ((unquote? last).bind codePoint?).isSome = true) :
    splitRange? (first ++ '.' :: '.' :: last) = some (first, last) := by
  have parts : ∀ {text : List Char}, ((unquote? text).bind codePoint?).isSome = true →
      ∃ inside, text = '\'' :: inside ++ ['\''] ∧ (codePoint? inside).isSome = true := by
    intro text found
    cases inner : unquote? text with
    | none => simp [inner] at found
    | some inside =>
        rw [inner] at found
        unfold unquote? at inner
        split at inner
        · exact ⟨inside, by rw [dropLast?_eq_some inner, List.cons_append], found⟩
        · cases inner
  obtain ⟨inside, rfl, denotes⟩ := parts left
  obtain ⟨other, rfl, _⟩ := parts right
  have whole : ('\'' :: inside ++ ['\'']) ++ '.' :: '.' :: ('\'' :: other ++ ['\'']) =
      '\'' :: inside ++ '\'' :: '.' :: '.' :: '\'' :: (other ++ ['\'']) := by simp
  have mark := rangeMark?_range denotes (other ++ ['\''])
  rw [← whole] at mark
  have quoted : isQuoted (('\'' :: inside ++ ['\'']) ++ '.' :: '.' :: ('\'' :: other ++ ['\''])) = true :=
    isQuoted_eq_true.mpr ⟨inside ++ '\'' :: '.' :: '.' :: '\'' :: other, by simp⟩
  have front : List.take (inside.length + 1 + 1) (('\'' :: inside ++ ['\'']) ++ '.' :: '.' ::
      ('\'' :: other ++ ['\''])) = '\'' :: inside ++ ['\''] := List.take_left' (by simp)
  have back : List.drop (inside.length + 1 + 3) (('\'' :: inside ++ ['\'']) ++ '.' :: '.' ::
      ('\'' :: other ++ ['\''])) = '\'' :: other ++ ['\''] := by
    simp [List.drop_append]
  have both : ∀ text : List Char, isQuoted ('\'' :: text ++ ['\'']) = true := fun text =>
    isQuoted_eq_true.mpr ⟨text, rfl⟩
  simp only [splitRange?, quoted, mark, Option.bind_eq_bind, Option.bind_some, front, back, both]
  simp

end Marks

theorem readElementText_of_head {first : Char} {rest : List Char} (quote : first ≠ '\'') :
    readElementText (first :: rest) =
      if first = '[' ∧ (first :: rest).getLast? = some ']' then .ok (.charSet (String.ofList (first :: rest)))
      else if first :: rest = ['.'] then .ok .wildcard
      else
        match readCode? (first :: rest) with
        | some form => .ok form
        | none => readName (first :: rest) := by
  have bare : isQuoted (first :: rest) = false := isQuoted_of_head quote
  rw [readElementText, splitRange?_of_not_isQuoted bare]
  simp only [List.isEmpty_cons, bare, List.head?_cons, Option.some.injEq]
  rfl

theorem readCode?_predicate (code : List Char) :
    readCode? ('{' :: code ++ ['}', '?']) = some (.predicate (String.ofList code) 0 none) := by
  have ends : dropEnd? ['}', '?'] (code ++ ['}', '?']) = some code := by
    simp [dropEnd?]
  simp [readCode?, ends]

theorem readCode?_action (code : List Char) :
    readCode? ('{' :: code ++ ['}']) = some (.action (String.ofList code) none) := by
  have open' : dropEnd? ['}', '?'] (code ++ ['}']) = none := by
    unfold dropEnd?
    split
    · rename_i ends
      obtain ⟨front, same⟩ := List.isSuffixOf_iff_suffix.mp ends
      have last := congrArg List.getLast? same
      simp at last
    · rfl
  have ends : dropEnd? ['}'] (code ++ ['}']) = some code := by
    simp [dropEnd?]
  simp [readCode?, open', ends]

/-- What a name begins with tells it from every other element. -/
theorem readElementText_token {name : String} (token : IsTokenName name) :
    readElementText name.toList = .ok (.token name) := by
  obtain ⟨all, upper⟩ := token
  cases letters : name.toList with
  | nil => simp [letters] at upper
  | cons head rest =>
      rw [letters] at upper all
      have named : isNameCharacter head = true := all head (by simp)
      have other : ∀ character, isNameCharacter character = false → head ≠ character := by
        rintro character none rfl
        rw [named] at none
        cases none
      have quote := other '\'' (by decide +kernel)
      have bracket := other '[' (by decide +kernel)
      have dot := other '.' (by decide +kernel)
      have brace := other '{' (by decide +kernel)
      have code : readCode? (head :: rest) = none := by
        unfold readCode?
        split
        · rename_i same
          exact absurd (List.cons.inj same).1 brace
        · rfl
      have valid : (head :: rest).all isNameCharacter = true := List.all_eq_true.mpr all
      rw [readElementText_of_head quote, if_neg (fun both => bracket both.1),
        if_neg (fun same => dot (List.cons.inj same).1), code]
      simp only [readName, valid, upper]
      rw [← letters, String.ofList_toList]
      rfl

end Description

/-- The form is one that a description gives as the text of the element. -/
def Form.HasText : Form → Prop
  | .token name => IsTokenName name
  | .literal text => IsLiteral text
  | .charSet text => IsCharSet text
  | .range first last => IsCharacter first ∧ IsCharacter last
  | .wildcard => True
  | .action _ index => index = none
  | .predicate _ index precedence => index = 0 ∧ precedence = none
  | .rule _ _ | .set _ _ | .block _ => False

namespace Description

/-- An element that is given as a text is read back from it. -/
theorem readElementText_text {form : Form} (position : Option Position) (written : form.HasText) :
    readElementText (Element.text ⟨form, position⟩).toList = .ok form := by
  cases form with
  | token name =>
      rw [Element.text]
      exact readElementText_token written
  | literal text =>
      obtain ⟨inside, same, escaped⟩ := written
      have quoted : isQuoted ('\'' :: inside ++ ['\'']) = true := isQuoted_eq_true.mpr ⟨inside, rfl⟩
      have back : String.ofList ('\'' :: inside ++ ['\'']) = text := by rw [← same, String.ofList_toList]
      rw [Element.text, same, readElementText, splitRange?_literal escaped]
      simp only [quoted, back]
      simp
  | charSet text =>
      obtain ⟨inside, same⟩ := written
      have back : String.ofList ('[' :: inside ++ [']']) = text := by rw [← same, String.ofList_toList]
      have last : ('[' :: (inside ++ [']'])).getLast? = some ']' := by
        rw [← List.cons_append, List.getLast?_concat]
      rw [Element.text, same, List.cons_append, readElementText_of_head (by decide), if_pos ⟨rfl, last⟩]
      rw [List.cons_append] at back
      rw [back]
  | range first last =>
      have split := splitRange?_range written.1 written.2
      have whole : (Element.text ⟨.range first last, position⟩).toList = first.toList ++ '.' :: '.' :: last.toList := by
        simp [Element.text]
      rw [whole, readElementText, split]
      simp
  | wildcard => rw [Element.text]; rfl
  | action code index =>
      have whole : (Element.text ⟨.action code index, position⟩).toList = '{' :: code.toList ++ ['}'] := by
        simp [Element.text]
      have index : index = none := written
      have action := readCode?_action code.toList
      rw [List.cons_append] at whole action
      rw [whole, readElementText_of_head (by decide), action, index]
      simp
  | predicate code index precedence =>
      have whole : (Element.text ⟨.predicate code index precedence, position⟩).toList =
          '{' :: code.toList ++ ['}', '?'] := by
        simp [Element.text]
      have predicate := readCode?_predicate code.toList
      rw [List.cons_append] at whole predicate
      rw [whole, readElementText_of_head (by decide), predicate, written.1, written.2]
      simp
  | rule name precedence => exact written.elim
  | set items inverted => exact written.elim
  | block body => exact written.elim

/-- The text of a suffix, with a question mark behind one that is not greedy. -/
def suffixText (suffix : Suffix) : String :=
  suffix.repetition.symbol ++ if suffix.greedy then "" else "?"

theorem readSuffix_suffixText (suffix : Suffix) : readSuffix (suffixText suffix) = .ok suffix := by
  obtain ⟨repetition, greedy⟩ := suffix
  cases repetition <;> cases greedy <;> rfl

/-- The text of a command, with its argument in parentheses. -/
def commandText (command : Command) : String :=
  match command.argument with
  | none => command.name
  | some argument => command.name ++ "(" ++ argument ++ ")"

theorem readCommand_commandText {command : Command} (describable : command.Describable) :
    readCommand (commandText command).toList = .ok command := by
  obtain ⟨name, argument, position⟩ := command
  obtain ⟨named, plain, trimmed, arguments, position⟩ := describable
  obtain rfl : _ = none := position
  have outside : ∀ character ∈ name.toList, (character != '(') = true := by
    intro character member
    rw [bne_iff_ne]
    rintro rfl
    exact plain member
  have letters : name.toList ≠ [] := fun none => named (String.toList_eq_nil_iff.mp none)
  have trim : Description.trimmed name.toList = name := trimmed
  cases argument with
  | none =>
      have behind : name.toList.dropWhile (· != '(') = [] := by
        rw [List.dropWhile_eq_nil_iff]
        exact outside
      simp only [commandText, readCommand, behind, trim]
      simp [letters]
  | some argument =>
      have inner : Description.trimmed argument.toList = argument := arguments argument rfl
      have whole : (commandText ⟨name, some argument, none⟩).toList =
          name.toList ++ '(' :: (argument.toList ++ [')']) := by
        simp [commandText]
      have front : (name.toList ++ '(' :: (argument.toList ++ [')'])).takeWhile (· != '(') = name.toList := by
        rw [List.takeWhile_append_of_pos outside]
        simp
      have behind : (name.toList ++ '(' :: (argument.toList ++ [')'])).dropWhile (· != '(') =
          '(' :: (argument.toList ++ [')']) := by
        rw [List.dropWhile_append_of_pos outside]
        simp
      simp only [whole, readCommand, front, behind, dropLast?_append, trim, inner]
      simp [letters]

end Description

end GrammarNetwork
