import Parlance.Binary64.Text
import Parlance.Numeral
import Parlance.Value
import Parlance.Value.Error

/-!
# Coercions

A script writes everything as text, so a value is taken for whatever kind it can be read as.
Scalars and strings have a text, and so has a script that came from a block.  Numbers and booleans
are read from that text; an integer is also any real without a fractional part that fits, and a
real any integer.
-/

namespace Parlance.Value

/-- The text of a value. -/
def asString : Value → Except ValueError String
  | .string text => .ok text
  | .boolean value => .ok (if value then "true" else "false")
  | .integer value => .ok (Numeral.write value)
  | .real value => .ok value.toText
  | .script _ (some text) => .ok text
  | _ => .error .noStringRepresentation

/-- The integer that a real stands for. -/
def integerOfReal? (x : Binary64) : Option Int64 := x.toInt?.bind Numeral.fit?

/-- Reads an integer from the text of a value. -/
def readInteger (value : Value) : Except ValueError Int64 :=
  match value.asString with
  | .error error => .error error
  | .ok text =>
    match Numeral.read? text with
    | some i => .ok i
    | none => .error (.invalidInteger text)

/-- The value as an integer. -/
def asInteger : Value → Except ValueError Int64
  | .integer value => .ok value
  | .real value =>
    match integerOfReal? value with
    | some i => .ok i
    | none => readInteger (.real value)
  | value => readInteger value

/-- The value as a real. -/
def asReal : Value → Except ValueError Binary64
  | .real value => .ok value
  | .integer value => .ok (Binary64.ofInt value.toInt)
  | value =>
    match value.asString with
    | .error error => .error error
    | .ok text =>
      match Binary64.ofText? text with
      | some x => .ok x
      | none => .error (.invalidNumber text)

/-- The value as a boolean. -/
def asBoolean : Value → Except ValueError Bool
  | .boolean value => .ok value
  | value =>
    match value.asString with
    | .error error => .error error
    | .ok text =>
      if text = "true" then .ok true
      else if text = "false" then .ok false
      else .error (.invalidBoolean text)

/-- The elements of a list or a tuple. -/
def asValues : Value → Except ValueError (List Value)
  | .list items => .ok items
  | .tuple items => .ok items
  | _ => .error .invalidList

end Parlance.Value
