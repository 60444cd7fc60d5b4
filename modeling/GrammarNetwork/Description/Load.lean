import GrammarNetwork.Description.Reader

/-! Loads descriptions into drafts, and names grammars after the paths of their descriptions. -/

namespace GrammarNetwork

namespace Path

/-- The last part of a path between slashes. Empty parts and single dots at the end do not count, and two
dots name no file. -/
def fileName? (path : String) : Option String :=
  let parts := (path.splitOn "/").filter fun part => !part.isEmpty && part != "."
  match parts.getLast? with
  | some ".." => none
  | last => last

/-- The file name without its extension. A dot at the very start begins no extension. -/
def stem (fileName : String) : String :=
  let reversed := fileName.toList.reverse
  match reversed.dropWhile (· != '.') with
  | [] => fileName
  | [_] => fileName
  | _ :: before => String.ofList before.reverse

end Path

/-- The reason why a file that does not exist cannot be opened. -/
def noSuchFile : String := "No such file or directory (os error 2)"

namespace Draft

/-- Adds what a description declares. It may change the kind of the grammar and whether case matters. -/
def describe (draft : Draft) (description : Description) : Draft :=
  { draft with
    kind := description.kind.getD draft.kind
    caseInsensitive := description.caseInsensitive.getD draft.caseInsensitive
    rules := draft.rules ++ description.rules
    tokens := draft.tokens ++ description.tokens
    channels := draft.channels ++ description.channels
    modes := draft.modes ++ description.modes }

/-- Adds the description at `path`. The draft takes the name of that file unless it has one. -/
def load (draft : Draft) (path : String) (content : Except String String) : Except LoadError Draft :=
  match content with
  | .error reason => .error ⟨path, .cannotOpen reason⟩
  | .ok text =>
      match Description.ofText text with
      | .error cause => .error ⟨path, cause⟩
      | .ok description =>
          .ok { draft.describe description with
            fileName := draft.fileName.or (Path.fileName? path) }

end Draft

end GrammarNetwork
