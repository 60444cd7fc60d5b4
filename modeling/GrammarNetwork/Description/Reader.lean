import GrammarNetwork.Description.Text
import GrammarNetwork.Grammar.Draft
import GrammarNetwork.Json.Reader

/-! Grammar descriptions as JSON values: an object with `rules` and, if need be, `kind`,
`caseInsensitive`, `tokens`, `channels` and `modes`. -/

namespace GrammarNetwork

/-- What a description declares. -/
structure Description where
  kind : Option GrammarKind := none
  caseInsensitive : Option Bool := none
  tokens : List String := []
  channels : List String := []
  modes : List String := []
  rules : List Rule := []

namespace Description

open Json

theorem sizeOf_lt_of_get? {fields : Fields} {key : String} {value : Value}
    (found : Fields.get? fields key = some value) : sizeOf value < sizeOf fields := by
  induction fields with
  | nil => simp [Fields.get?] at found
  | cons field rest ih =>
      obtain ⟨name, first⟩ := field
      simp only [Fields.get?, List.lookup_cons] at found
      split at found
      · have same : first = value := by simpa using found
        subst same
        simp
        omega
      · have smaller := ih found
        simp
        omega

theorem sizeOf_items_lt_of_get? {fields : Fields} {key : String} {values : List Value}
    (found : fields.get? key = some (.array values)) : sizeOf values < sizeOf fields := by
  have smaller := sizeOf_lt_of_get? found
  simp at smaller
  omega

/-- Reads every item, and stops at the first that is wrong. -/
def readList {α : Type} (read : Value → Except DescriptionError α) :
    List Value → Except DescriptionError (List α)
  | [] => .ok []
  | value :: rest => do
      let first ← read value
      let rest ← readList read rest
      return first :: rest

def readCommandValue (value : Value) : Except DescriptionError Command :=
  match value with
  | .string text => readCommand text.toList
  | _ => .error .commandShape

/-- The commands of an alternative, if it gives any. -/
def readCommands (fields : Fields) (inherited : List Command) : Except DescriptionError (List Command) :=
  match Fields.get? fields "commands" with
  | none => .ok inherited
  | some (.array values) => readList readCommandValue values
  | some _ => .error .commandsShape

def readSuffixField (fields : Fields) : Except DescriptionError (Option Suffix) :=
  match Fields.get? fields "suffix" with
  | none => .ok none
  | some (.string text) => some <$> readSuffix text
  | some _ => .error .suffixShape

/-- A flag that counts as not given unless it is a truth value. -/
def flag? (fields : Fields) (key : String) : Option Bool :=
  (Fields.get? fields key).bind Value.bool?

def flag (fields : Fields) (key : String) : Bool :=
  (flag? fields key).getD false

def readPrecedence (fields : Fields) : Except DescriptionError (Option Int) :=
  match Fields.get? fields "precedence" with
  | none => .ok none
  | some value =>
      match value.integer? with
      | some integer => if isInt32 integer then .ok (some integer) else .error .precedenceShape
      | none => .error .precedenceShape

/-- A rule reference or a precedence predicate. -/
def readReference (fields : Fields) : Except DescriptionError Form := do
  let precedence ← readPrecedence fields
  match Fields.get? fields "rule" with
  | some (.string name) => return .rule name precedence
  | some _ => throw .referenceShape
  | none =>
      match Fields.get? fields "predicate", precedence with
      | some _, some precedence => return Element.precedencePredicate precedence
      | some _, none => throw .predicateWithoutPrecedence
      | none, _ => throw .unknownElement

mutual

def readElement (value : Value) : Except DescriptionError Element :=
  match value with
  | .string text => do return { form := ← readElementText text.toList }
  | .object fields =>
      match found : Fields.get? fields "block" with
      | some value => do
          have := sizeOf_lt_of_get? found
          let alternatives ← readAlternatives value
          let suffix ← readSuffixField fields
          return { form := .block { alternatives, suffix } }
      | none =>
          match items : Fields.get? fields "set" with
          | some (.array values) => do
              have := sizeOf_items_lt_of_get? items
              let elements ← readElements values
              return { form := .set elements (flag fields "invert") }
          | some _ => .error .itemsShape
          | none => do return { form := ← readReference fields }
  | _ => .error .elementShape
termination_by sizeOf value

def readElements (values : List Value) : Except DescriptionError (List Element) :=
  match values with
  | [] => .ok []
  | value :: rest => do
      let first ← readElement value
      let rest ← readElements rest
      return first :: rest
termination_by sizeOf values

/-- An array of elements, or an object that may add lexer commands. -/
def readAlternative (value : Value) : Except DescriptionError Alternative :=
  match value with
  | .array values => do return { elements := ← readElements values }
  | .object fields => do
      let body ←
        match found : Fields.get? fields "elements" with
        | some value =>
            have := sizeOf_lt_of_get? found
            readAlternative value
        | none => pure {}
      let commands ← readCommands fields body.commands
      return { body with commands }
  | _ => .error .alternativeShape
termination_by sizeOf value

def readAlternativeList (values : List Value) : Except DescriptionError (List Alternative) :=
  match values with
  | [] => .ok []
  | value :: rest => do
      let first ← readAlternative value
      let rest ← readAlternativeList rest
      return first :: rest
termination_by sizeOf values

/-- The alternatives of a block; there is at least one. -/
def readAlternatives (value : Value) : Except DescriptionError (List Alternative) :=
  match value with
  | .array [] => .error .noAlternatives
  | .array values => readAlternativeList values
  | _ => .error .alternativesShape
termination_by sizeOf value

end

/-- The alternatives of a rule; what is wrong with them is told with the name of the rule. -/
def readRuleAlternatives (name : String) (value : Value) : Except DescriptionError (List Alternative) :=
  match readAlternatives value with
  | .ok alternatives => .ok alternatives
  | .error cause => .error (.inRule name cause)

def readMode (name : String) (fields : Fields) : Except DescriptionError String :=
  match Fields.get? fields "mode" with
  | none => .ok defaultModeName
  | some (.string mode) => .ok mode
  | some _ => .error (.modeShape name)

def readRule (name : String) (value : Value) : Except DescriptionError Rule :=
  match value with
  | .array _ => do return { name, alternatives := ← readRuleAlternatives name value }
  | .object fields =>
      match Fields.get? fields "alts" with
      | none => .error (.ruleWithoutAlternatives name)
      | some value => do
          let alternatives ← readRuleAlternatives name value
          let mode ← readMode name fields
          return {
            name
            alternatives
            isFragment := flag fields "fragment"
            mode
            caseInsensitive := flag? fields "caseInsensitive"
            leftRecursive := flag fields "leftRecursive" }
  | _ => .error (.ruleShape name)

def readRules : Fields → Except DescriptionError (List Rule)
  | [] => .ok []
  | (name, value) :: rest => do
      let first ← readRule name value
      let rest ← readRules rest
      return first :: rest

/-- The names under a key, none if the key is not there. -/
def readNames (fields : Fields) (key : String) : Except DescriptionError (List String) :=
  match Fields.get? fields key with
  | none => .ok []
  | some (.array values) =>
      readList (fun value =>
        match value with
        | .string name => .ok name
        | _ => .error (.namesShape key)) values
  | some _ => .error (.namesShape key)

def readKind (fields : Fields) : Except DescriptionError (Option GrammarKind) :=
  match Fields.get? fields "kind" with
  | none => .ok none
  | some (.string "lexer") => .ok (some .lexer)
  | some (.string "parser") => .ok (some .parser)
  | some _ => .error .unknownKind

/-- Reads a description. -/
def ofJson (value : Value) : Except DescriptionError Description :=
  match value with
  | .object fields => do
      let kind ← readKind fields
      let rules ←
        match Fields.get? fields "rules" with
        | some (.object rules) => readRules rules
        | _ => throw .rulesShape
      let tokens ← readNames fields "tokens"
      let channels ← readNames fields "channels"
      let modes ← readNames fields "modes"
      return { kind, caseInsensitive := flag? fields "caseInsensitive", tokens, channels, modes, rules }
  | _ => .error .grammarShape

/-- Reads the text of a description. -/
def ofText (text : String) : Except LoadCause Description :=
  match Json.parse? text with
  | none => .error .invalidJson
  | some value =>
      match ofJson value with
      | .ok description => .ok description
      | .error error => .error (.invalid error)

end Description

end GrammarNetwork
