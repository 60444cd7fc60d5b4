import GrammarNetwork.Diagnostic
import GrammarNetwork.Unicode.CaseMapping

/-! Code templates for lexer commands without a meaning of their own. -/

namespace GrammarNetwork

/-- The code of a command, with `<arg>` where its argument goes if it takes one. -/
structure Template where
  text : String
  takesArgument : Bool
deriving DecidableEq, Repr

def Template.render (template : Template) (argument : Option String) : String :=
  match argument with
  | some argument =>
      if template.takesArgument then
        String.ofList (replaceAll "<arg>".toList argument.toList template.text.toList)
      else
        template.text
  | none => template.text

/-- The name of the template for a command: `LexerSetTextCommand` for `setText`. -/
def templateName (command : String) : String :=
  "Lexer" ++ Unicode.capitalize command ++ "Command"

/-- The templates of a target by their names. -/
abbrev Templates := String → Option Template

namespace Templates

def none : Templates := fun _ => .none

/-- The templates for commands; of two with the same name the later one counts. -/
def ofCommands (commands : List (String × Template)) : Templates := fun name =>
  (commands.reverse.find? fun entry => templateName entry.1 == name).map Prod.snd

end Templates

end GrammarNetwork
