import Parlance.Script.Parser
import Parlance.Value.Coercion

/-!
# The source form of values

A value is written as a word that evaluates back to it, as far as it has such a form: strings,
tuples, blocks, qualified values and scalars do, a list or dictionary is written as the command
that makes it, and what has no source form is a block that holds only a comment.

A string is written bare when it reads back as one literal, and in quotes otherwise.  The source
of a qualified value is written bare when it can be, and as the text of a block otherwise.
-/

namespace Parlance

/-! ## Texts -/

/-- Characters that cannot stand in a bare literal. -/
def endsLiteral (c : Char) : Bool :=
  c ∈ [' ', '\t', '\r', '\x0c', '\n', '\\', '#', '"', '(', ')', '{', '}', '[', ']', '$', ';']

/-- Whether a text reads back as one literal. -/
def isLiteralSafe (text : String) : Bool := !text.isEmpty && !text.toList.any endsLiteral

/-- Characters that need a backslash within quotes. -/
def needsBackslash (c : Char) : Bool := c ∈ ['\\', '"', '$', '[']

/-- A text within quotes. -/
def quoteText (text : String) : String :=
  let body := text.toList.flatMap fun c => if needsBackslash c then ['\\', c] else [c]
  String.ofList ('"' :: body ++ ['"'])

/-- A string as a word. -/
def displayText (text : String) : String := if isLiteralSafe text then text else quoteText text

/-- A text within braces. -/
def brace (text : String) : String := "\x7b" ++ text ++ "\x7d"

/-- A block that holds only a comment: the form of what has none. -/
def placeholder (name : String) : String := brace ("#" ++ brace name ++ "#")

/-- Whether a text within braces reads back as one block with that text. -/
def isBlockSafe (text : String) : Bool :=
  match parse (brace text) ⟨false⟩ with
  | .ok ⟨[⟨[⟨[⟨.block _ value, _⟩], _⟩], _⟩], _⟩ => value == text
  | _ => false

/-- A text as the source of a qualified word. -/
def displaySourceText (text : String) : String :=
  if isLiteralSafe text then text
  else if isBlockSafe text then brace text
  else placeholder "qualified"

/-! ## Values -/

mutual

/-- The source form of a value. -/
def Value.display : Value → String
  | .nil => "[]"
  | .boolean value => if value then "true" else "false"
  | .integer value => Numeral.write value
  | .real value => value.toText
  | .string text => displayText text
  | .list items => "[list (" ++ Value.displayWords items ++ ")]"
  | .dictionary entries => "[dict (" ++ Value.displayEntries entries ++ ")]"
  | .tuple items => "(" ++ Value.displayWords items ++ ")"
  | .script _ (some text) => brace text
  | .script _ none => placeholder "script"
  | .command _ => placeholder "command"
  | .qualified source selectors =>
    Value.displaySource source ++ Selector.displayChain selectors

/-- The source of a qualified value. -/
def Value.displaySource : Value → String
  | .tuple items => "(" ++ Value.displayWords items ++ ")"
  | source =>
    match source.asString with
    | .ok text => displaySourceText text
    | .error _ => placeholder "qualified"

/-- Values with a blank between them. -/
def Value.displayWords : List Value → String
  | [] => ""
  | [item] => Value.display item
  | item :: rest => Value.display item ++ " " ++ Value.displayWords rest

/-- Keys and values with a blank between them. -/
def Value.displayEntries : List (String × Value) → String
  | [] => ""
  | [(key, value)] => displayText key ++ " " ++ Value.display value
  | (key, value) :: rest =>
    displayText key ++ " " ++ Value.display value ++ " " ++ Value.displayEntries rest

/-- The source form of a rule: the words of a tuple. -/
def Value.displayRule : Value → String
  | .tuple words => Value.displayWords words
  | rule => Value.display rule

/-- Rules with a semicolon between them. -/
def Value.displayRules : List Value → String
  | [] => ""
  | [rule] => Value.displayRule rule
  | rule :: rest => Value.displayRule rule ++ "; " ++ Value.displayRules rest

/-- The source form of a selector. -/
def Selector.display : Selector → String
  | .indexed index => "[" ++ Value.display index ++ "]"
  | .keyed keys => "(" ++ Value.displayWords keys ++ ")"
  | .generic rules => brace (Value.displayRules rules)
  | .custom ⟨_, label, _⟩ => label

/-- Selectors without a gap. -/
def Selector.displayChain : List Selector → String
  | [] => ""
  | selector :: rest => Selector.display selector ++ Selector.displayChain rest

end

end Parlance
