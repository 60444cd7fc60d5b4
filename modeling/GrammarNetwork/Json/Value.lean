/-! Values of JSON texts, as far as grammar descriptions need them. -/

namespace GrammarNetwork.Json

/-- A JSON value. Of a number only the integer is kept that it is written as, if it is written as one. -/
inductive Value where
  | null
  | bool (value : Bool)
  | number (integer : Option Int)
  | string (text : String)
  | array (items : List Value)
  | object (fields : List (String × Value))

namespace Value

def bool? : Value → Option Bool
  | .bool value => some value
  | _ => none

def string? : Value → Option String
  | .string text => some text
  | _ => none

def integer? : Value → Option Int
  | .number integer => integer
  | _ => none

end Value

/-- The fields of an object in the order of the text, each key once. -/
abbrev Fields := List (String × Value)

namespace Fields

def get? (fields : Fields) (key : String) : Option Value :=
  fields.lookup key

/-- Sets the value of a key; a key that is there already keeps its place. -/
def put (fields : Fields) (key : String) (value : Value) : Fields :=
  match fields with
  | [] => [(key, value)]
  | (head, old) :: rest =>
      if head = key then (key, value) :: rest else (head, old) :: put rest key value

/-- The fields of an object whose text gives these keys and values. -/
def ofText (fields : List (String × Value)) : Fields :=
  fields.foldl (fun result field => put result field.1 field.2) []

end Fields

end GrammarNetwork.Json
