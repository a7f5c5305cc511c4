import Parlance.Source

/-!
# Parse errors

A parse error has a cause and the position of the token at fault; for a construct left open this
is the token that opened it.  An error is incomplete when more input could make it go away, which
is how an interactive reader tells "read on" from "report".
-/

namespace Parlance

/-- A pair of brackets. -/
inductive Delimiter where
  /-- `( )` -/
  | parenthesis
  /-- `{ }` -/
  | brace
  /-- `[ ]` -/
  | bracket
  deriving DecidableEq, Inhabited

/-- The name of the pair in messages. -/
def Delimiter.name : Delimiter → String
  | .parenthesis => "parenthesis"
  | .brace => "brace"
  | .bracket => "bracket"

namespace ParseError

/-- What is wrong with a text. -/
inductive Cause where
  | unmatchedLeft (delimiter : Delimiter)
  | unmatchedRight (delimiter : Delimiter)
  | mismatchedRight (delimiter : Delimiter)
  | unexpectedStringDelimiter
  | unexpectedCommentDelimiter
  | extraCharactersAfterStringDelimiter
  | unmatchedStringDelimiter
  | unmatchedHereStringDelimiter
  | unmatchedTaggedStringDelimiter
  | unmatchedBlockCommentDelimiter
  /-- The input ends with a line continuation. -/
  | unterminatedScript
  /-- A word has no valid shape. -/
  | syntaxError
  deriving DecidableEq, Inhabited

namespace Cause

/-- The text shown to the user. -/
def message : Cause → String
  | .unmatchedLeft delimiter => "unmatched left " ++ delimiter.name
  | .unmatchedRight delimiter => "unmatched right " ++ delimiter.name
  | .mismatchedRight delimiter => "mismatched right " ++ delimiter.name
  | .unexpectedStringDelimiter => "unexpected string delimiter"
  | .unexpectedCommentDelimiter => "unexpected comment delimiter"
  | .extraCharactersAfterStringDelimiter => "extra characters after string delimiter"
  | .unmatchedStringDelimiter => "unmatched string delimiter"
  | .unmatchedHereStringDelimiter => "unmatched here-string delimiter"
  | .unmatchedTaggedStringDelimiter => "unmatched tagged string delimiter"
  | .unmatchedBlockCommentDelimiter => "unmatched block comment delimiter"
  | .unterminatedScript => "unterminated script"
  | .syntaxError => "syntax error"

/-- Whether more input could make the error go away. -/
def isIncomplete : Cause → Bool
  | .unmatchedLeft _
  | .unmatchedStringDelimiter
  | .unmatchedHereStringDelimiter
  | .unmatchedTaggedStringDelimiter
  | .unmatchedBlockCommentDelimiter
  | .unterminatedScript => true
  | _ => false

end Cause

end ParseError

/-- A parse failure. -/
structure ParseError where
  cause : ParseError.Cause
  position : Position
  deriving DecidableEq, Inhabited

namespace ParseError

/-- The text shown to the user. -/
def message (error : ParseError) : String := error.cause.message

/-- Whether more input could make the error go away. -/
def isIncomplete (error : ParseError) : Bool := error.cause.isIncomplete

end ParseError

end Parlance
