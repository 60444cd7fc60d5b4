/-! Comments in JSON texts: `//` up to the end of the line and `/*` up to `*/`, outside strings. -/

namespace GrammarNetwork.Json

/-- Where in a text with comments the next character stands. -/
inductive Region where
  | plain
  | string
  | escape
  /-- After a slash that must open a comment. -/
  | slash
  | line
  | block
  /-- In a block comment after a star. -/
  | star
deriving DecidableEq, Repr

/-- The text with blanks for comments. Fails if a slash opens no comment or a comment is not closed. -/
def blankComments : Region → List Char → Option (List Char)
  | .slash, [] | .block, [] | .star, [] => none
  | _, [] => some []
  | .plain, '"' :: rest => (blankComments .string rest).map ('"' :: ·)
  | .plain, '/' :: rest => (blankComments .slash rest).map (' ' :: ·)
  | .plain, other :: rest => (blankComments .plain rest).map (other :: ·)
  | .string, '"' :: rest => (blankComments .plain rest).map ('"' :: ·)
  | .string, '\\' :: rest => (blankComments .escape rest).map ('\\' :: ·)
  | .string, other :: rest => (blankComments .string rest).map (other :: ·)
  | .escape, other :: rest => (blankComments .string rest).map (other :: ·)
  | .slash, '/' :: rest => (blankComments .line rest).map (' ' :: ·)
  | .slash, '*' :: rest => (blankComments .block rest).map (' ' :: ·)
  | .slash, _ :: _ => none
  | .line, '\n' :: rest => (blankComments .plain rest).map ('\n' :: ·)
  | .line, _ :: rest => (blankComments .line rest).map (' ' :: ·)
  | .block, '*' :: rest => (blankComments .star rest).map (' ' :: ·)
  | .block, _ :: rest => (blankComments .block rest).map (' ' :: ·)
  | .star, '/' :: rest => (blankComments .plain rest).map (' ' :: ·)
  | .star, '*' :: rest => (blankComments .star rest).map (' ' :: ·)
  | .star, _ :: rest => (blankComments .block rest).map (' ' :: ·)

end GrammarNetwork.Json
