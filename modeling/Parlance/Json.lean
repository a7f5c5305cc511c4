/-!
# JSON values and their compact text

The form in which scripts are stored.  A number keeps its own text, since readers differ in what
they make of one.  A string of JSON can hold half of a surrogate pair, which no text has; such a
string keeps its code units and is good for nothing but being passed over, and so is an object that
has one for a key.
-/

namespace Parlance

/-- A JSON value. -/
inductive Json where
  | null
  | boolean (value : Bool)
  | number (text : String)
  | string (text : String)
  /-- A string with an unpaired surrogate, as code points and surrogates. -/
  | brokenString (codes : List Nat)
  | array (items : List Json)
  /-- Fields in the order they were written, repetitions included. -/
  | object (fields : List (String × Json))
  /-- An object with an unpaired surrogate in a key, its keys as code points and surrogates. -/
  | brokenObject (fields : List (List Nat × Json))

namespace Json

/-- The number that a natural number is. -/
def ofNat (n : Nat) : Json := .number (toString n)

/-! ## Strings -/

/-- A digit in base sixteen, in lower case. -/
def hexDigit (n : Nat) : Char := (n % 16).digitChar

/-- The escape of a code of up to four digits. -/
def escapeCode (code : Nat) : List Char :=
  ['\\', 'u', hexDigit (code / 4096), hexDigit (code / 256), hexDigit (code / 16), hexDigit code]

/-- A character within a string.  Quotes, backslashes and control characters are escaped. -/
def escape (c : Char) : List Char :=
  match c with
  | '"' => ['\\', '"']
  | '\\' => ['\\', '\\']
  | '\x08' => ['\\', 'b']
  | '\x0c' => ['\\', 'f']
  | '\n' => ['\\', 'n']
  | '\r' => ['\\', 'r']
  | '\t' => ['\\', 't']
  | c => if c.toNat < 32 then escapeCode c.toNat else [c]

/-- A text as a string of JSON, written before `rest`. -/
def writeText (text : String) (rest : List Char) : List Char :=
  '"' :: text.toList.flatMap escape ++ '"' :: rest

/-- Code points and surrogates as a string of JSON, written before `rest`. -/
def writeCodes (codes : List Nat) (rest : List Char) : List Char :=
  let body := codes.flatMap fun code =>
    if code < 65536 then escapeCode code else escape (Char.ofNat code)
  '"' :: body ++ '"' :: rest

/-! ## Values

Every function writes before a text that is there already, so that no part is copied twice. -/

mutual

/-- The text of a value, without blanks, before `rest`. -/
def write (rest : List Char) : Json → List Char
  | .null => 'n' :: 'u' :: 'l' :: 'l' :: rest
  | .boolean true => 't' :: 'r' :: 'u' :: 'e' :: rest
  | .boolean false => 'f' :: 'a' :: 'l' :: 's' :: 'e' :: rest
  | .number text => text.toList ++ rest
  | .string text => writeText text rest
  | .brokenString codes => writeCodes codes rest
  | .array [] => '[' :: ']' :: rest
  | .array (item :: items) => '[' :: write (writeItems rest items) item
  | .object [] => '{' :: '}' :: rest
  | .object ((key, value) :: fields) =>
    '{' :: writeText key (':' :: write (writeFields rest fields) value)
  | .brokenObject [] => '{' :: '}' :: rest
  | .brokenObject ((key, value) :: fields) =>
    '{' :: writeCodes key (':' :: write (writeBrokenFields rest fields) value)

/-- The items of an array after the first, and its end. -/
def writeItems (rest : List Char) : List Json → List Char
  | [] => ']' :: rest
  | item :: items => ',' :: write (writeItems rest items) item

/-- The fields of an object after the first, and its end. -/
def writeFields (rest : List Char) : List (String × Json) → List Char
  | [] => '}' :: rest
  | (key, value) :: fields =>
    ',' :: writeText key (':' :: write (writeFields rest fields) value)

/-- The fields after the first of an object whose keys are codes, and its end. -/
def writeBrokenFields (rest : List Char) : List (List Nat × Json) → List Char
  | [] => '}' :: rest
  | (key, value) :: fields =>
    ',' :: writeCodes key (':' :: write (writeBrokenFields rest fields) value)

end

/-- The text of a value. -/
def toText (json : Json) : String := String.ofList (json.write [])

/-! ## Depth -/

mutual

/-- How many arrays and objects lie within each other, at most. -/
def depth : Json → Nat
  | .array items => depthOfItems items + 1
  | .object fields => depthOfFields fields + 1
  | .brokenObject fields => depthOfBrokenFields fields + 1
  | _ => 0

def depthOfItems : List Json → Nat
  | [] => 0
  | item :: items => max (depth item) (depthOfItems items)

def depthOfFields : List (String × Json) → Nat
  | [] => 0
  | (_, value) :: fields => max (depth value) (depthOfFields fields)

def depthOfBrokenFields : List (List Nat × Json) → Nat
  | [] => 0
  | (_, value) :: fields => max (depth value) (depthOfBrokenFields fields)

end

end Json

end Parlance
