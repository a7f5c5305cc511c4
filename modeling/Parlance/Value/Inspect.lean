import Parlance.Binary64.Text
import Parlance.Numeral
import Parlance.Text.Quoted
import Parlance.Token
import Parlance.Value

/-!
# Inspection

For diagnosis, a value is shown with the names of its kinds and with its texts in quotes, so that
values that look the same in source form can be told apart.  Commands do not show what they are.
A token is shown with its kind, its literal and its place.
-/

namespace Parlance

/-- A token with its kind, its literal and its place. -/
def Token.inspect (token : Token) : String :=
  token.kind.name ++ "(" ++ Text.quoted token.literal ++ ") @ " ++ token.position.label

/-- The text of a script, if it has one. -/
def inspectText? : Option String → String
  | none => "None"
  | some text => "Some(" ++ Text.quoted text ++ ")"

mutual

/-- A value with the names of its kinds. -/
def Value.inspect : Value → String
  | .nil => "Nil"
  | .boolean value => "Boolean(" ++ (if value then "true" else "false") ++ ")"
  | .integer value => "Integer(" ++ Numeral.write value ++ ")"
  | .real value => "Real(" ++ value.toLiteral ++ ")"
  | .string text => "String(" ++ Text.quoted text ++ ")"
  | .list items => "List([" ++ Value.inspectItems items ++ "])"
  | .dictionary entries => "Dictionary(\x7b" ++ Value.inspectEntries entries ++ "\x7d)"
  | .tuple items => "Tuple([" ++ Value.inspectItems items ++ "])"
  | .script _ text => "Script(" ++ inspectText? text ++ ")"
  | .command _ => "Command(..)"
  | .qualified source selectors =>
    "Qualified \x7b source: " ++ Value.inspect source ++ ", selectors: [" ++
      Selector.inspectAll selectors ++ "] \x7d"

def Value.inspectItems : List Value → String
  | [] => ""
  | [item] => Value.inspect item
  | item :: rest => Value.inspect item ++ ", " ++ Value.inspectItems rest

def Value.inspectEntries : List (String × Value) → String
  | [] => ""
  | [(key, value)] => Text.quoted key ++ ": " ++ Value.inspect value
  | (key, value) :: rest =>
    Text.quoted key ++ ": " ++ Value.inspect value ++ ", " ++ Value.inspectEntries rest

/-- A selector with the name of its kind. -/
def Selector.inspect : Selector → String
  | .indexed index => "Indexed(" ++ Value.inspect index ++ ")"
  | .keyed keys => "Keyed([" ++ Value.inspectItems keys ++ "])"
  | .generic rules => "Generic([" ++ Value.inspectItems rules ++ "])"
  | .custom ⟨_, label, _⟩ => "Custom(" ++ label ++ ")"

def Selector.inspectAll : List Selector → String
  | [] => ""
  | [selector] => Selector.inspect selector
  | selector :: rest => Selector.inspect selector ++ ", " ++ Selector.inspectAll rest

end

end Parlance
