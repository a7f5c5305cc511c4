import Parlance.Source

/-!
# Tokens

A token is a stretch of source text of one kind.  It keeps the exact text it covers, its
`sequence`, and the text it stands for, its `literal`; the two differ only for escapes and line
continuations.  The sequences of a tokenized text, put together, are that text.
-/

namespace Parlance

namespace Token

/-- Kinds of token.  A run of `#` or of `"` is one token, whatever its length. -/
inductive Kind where
  /-- A run of blanks within a line. -/
  | whitespace
  | newline
  /-- A backslash, the newline after it and the blanks that follow. -/
  | continuation
  /-- A run of ordinary characters. -/
  | text
  /-- A backslash and what it escapes. -/
  | escape
  /-- A run of `#`. -/
  | comment
  | openTuple
  | closeTuple
  | openBlock
  | closeBlock
  | openExpression
  | closeExpression
  /-- A run of `"`. -/
  | stringDelimiter
  | dollar
  | asterisk
  | semicolon
  deriving DecidableEq, Inhabited

namespace Kind

/-- All kinds. -/
def all : List Kind :=
  [.whitespace, .newline, .continuation, .text, .escape, .comment, .openTuple, .closeTuple,
   .openBlock, .closeBlock, .openExpression, .closeExpression, .stringDelimiter, .dollar,
   .asterisk, .semicolon]

/-- The name of a kind. -/
def name : Kind → String
  | .whitespace => "Whitespace"
  | .newline => "Newline"
  | .continuation => "Continuation"
  | .text => "Text"
  | .escape => "Escape"
  | .comment => "Comment"
  | .openTuple => "OpenTuple"
  | .closeTuple => "CloseTuple"
  | .openBlock => "OpenBlock"
  | .closeBlock => "CloseBlock"
  | .openExpression => "OpenExpression"
  | .closeExpression => "CloseExpression"
  | .stringDelimiter => "StringDelimiter"
  | .dollar => "Dollar"
  | .asterisk => "Asterisk"
  | .semicolon => "Semicolon"

/-- The kind of a name. -/
def ofName? (name : String) : Option Kind := all.find? fun kind => kind.name = name

end Kind

end Token

/-- A stretch of source text. -/
structure Token where
  kind : Token.Kind
  position : Position
  /-- The source text covered. -/
  sequence : String
  /-- The text meant. -/
  literal : String
  deriving DecidableEq, Inhabited

/-- Length of a run of delimiters.  It counts the bytes of the literal; the scanner only makes
runs of `#` and `"`, where bytes and characters are the same. -/
def Token.runLength (token : Token) : Nat := token.literal.utf8ByteSize

end Parlance
