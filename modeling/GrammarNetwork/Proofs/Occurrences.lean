import GrammarNetwork.Grammar.Draft

/-! What the rules of a grammar consist of: the elements of a rule at any depth, apart from the items of its
sets, and its blocks. -/

namespace GrammarNetwork

mutual

/-- The element with what is inside it in front of it. The items of a set are not inside it. -/
def Element.parts : Element → List Element
  | ⟨.block ⟨alternatives, suffix⟩, position⟩ =>
      alternativeParts alternatives ++ [⟨.block ⟨alternatives, suffix⟩, position⟩]
  | element => [element]

def listParts : List Element → List Element
  | [] => []
  | first :: rest => first.parts ++ listParts rest

def alternativeParts : List Alternative → List Element
  | [] => []
  | ⟨elements, _⟩ :: rest => listParts elements ++ alternativeParts rest

end

def Element.block? (element : Element) : Option Block :=
  match element.form with
  | .block body => some body
  | _ => none

namespace Rule

/-- The elements of the rule, each after those inside it. -/
def elements (rule : Rule) : List Element :=
  alternativeParts rule.alternatives

/-- The blocks of the rule, each after those inside it and the body last. -/
def blocks (rule : Rule) : List Block :=
  rule.elements.filterMap Element.block? ++ [rule.body]

end Rule

end GrammarNetwork
