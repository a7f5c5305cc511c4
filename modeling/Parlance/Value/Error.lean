/-!
# What can go wrong with a value

Each cause has one message, and that message is the value of the error that a script sees.
-/

namespace Parlance

/-- A failure to coerce, select or resolve. -/
inductive ValueError where
  | invalidIndex
  | indexOutOfRange (index : String)
  | unknownKey (key : String)
  | emptySelector
  | notIndexSelectable
  | notKeySelectable
  | notSelectable
  | noStringRepresentation
  | invalidInteger (text : String)
  | invalidNumber (text : String)
  | invalidBoolean (text : String)
  | invalidList
  | invalidVariableName
  | invalidCommandName
  | unresolvedVariable (name : String)
  | unresolvedCommand (name : String)
  /-- The rules are given as they are written, braces included. -/
  | unresolvedSelector (rules : String)
  /-- A message of the embedder. -/
  | custom (message : String)
  deriving DecidableEq, Inhabited

/-- A text between quotes. -/
def ValueError.quote (text : String) : String := "\"" ++ text ++ "\""

/-- The text that the script sees. -/
def ValueError.message : ValueError → String
  | .invalidIndex => "invalid index"
  | .indexOutOfRange index => "index out of range " ++ quote index
  | .unknownKey key => "unknown key " ++ quote key
  | .emptySelector => "empty selector"
  | .notIndexSelectable => "value is not index-selectable"
  | .notKeySelectable => "value is not key-selectable"
  | .notSelectable => "value is not selectable"
  | .noStringRepresentation => "value has no string representation"
  | .invalidInteger text => "invalid integer " ++ quote text
  | .invalidNumber text => "invalid number " ++ quote text
  | .invalidBoolean text => "invalid boolean " ++ quote text
  | .invalidList => "invalid list"
  | .invalidVariableName => "invalid variable name"
  | .invalidCommandName => "invalid command name"
  | .unresolvedVariable name => "cannot resolve variable " ++ quote name
  | .unresolvedCommand name => "cannot resolve command " ++ quote name
  | .unresolvedSelector rules => "cannot resolve selector " ++ rules
  | .custom message => message

end Parlance
