import Parlance.Json

/-!
# Reading JSON

Every function takes the text that is left and gives a value and the text after it, or nothing when
the text is malformed.  Blanks are allowed around values; a whole text holds one value and nothing
else.  Values nest, so reading them is a recursion on a bound that the length of the text supplies:
each value within a value costs at least one character.
-/

namespace Parlance.Json

/-- Drops blanks. -/
def skipBlanks (text : List Char) : List Char :=
  text.dropWhile fun c => c = ' ' || c = '\n' || c = '\t' || c = '\r'

/-! ## Strings -/

/-- The value of a digit in base sixteen. -/
def hexValue? (c : Char) : Option Nat :=
  if '0' ≤ c ∧ c ≤ '9' then some (c.toNat - '0'.toNat)
  else if 'a' ≤ c ∧ c ≤ 'f' then some (c.toNat - 'a'.toNat + 10)
  else if 'A' ≤ c ∧ c ≤ 'F' then some (c.toNat - 'A'.toNat + 10)
  else none

/-- The code of four digits in base sixteen. -/
def code? (a b c d : Char) : Option Nat :=
  match hexValue? a, hexValue? b, hexValue? c, hexValue? d with
  | some a, some b, some c, some d => some (((a * 16 + b) * 16 + c) * 16 + d)
  | _, _, _, _ => none

/-- The character of a one-letter escape. -/
def unescape? : Char → Option Char
  | '"' => some '"'
  | '\\' => some '\\'
  | '/' => some '/'
  | 'b' => some '\x08'
  | 'f' => some '\x0c'
  | 'n' => some '\n'
  | 'r' => some '\r'
  | 't' => some '\t'
  | _ => none

/-- The codes of a string up to its closing quote. -/
def readCodes : List Char → Option (List Nat × List Char)
  | [] => none
  | '"' :: rest => some ([], rest)
  | '\\' :: 'u' :: a :: b :: c :: d :: rest =>
    match code? a b c d, readCodes rest with
    | some code, some (codes, rest) => some (code :: codes, rest)
    | _, _ => none
  | '\\' :: c :: rest =>
    match unescape? c, readCodes rest with
    | some c, some (codes, rest) => some (c.toNat :: codes, rest)
    | _, _ => none
  | c :: rest =>
    if c.toNat < 32 then none
    else
      match readCodes rest with
      | some (codes, rest) => some (c.toNat :: codes, rest)
      | none => none

def isHighSurrogate (code : Nat) : Bool := 0xd800 ≤ code && code < 0xdc00

def isLowSurrogate (code : Nat) : Bool := 0xdc00 ≤ code && code < 0xe000

/-- The characters of codes, where every surrogate must be one of a pair. -/
def pairSurrogates? : List Nat → Option (List Char)
  | [] => some []
  | [code] =>
    if isHighSurrogate code || isLowSurrogate code then none else some [Char.ofNat code]
  | high :: low :: rest =>
    if isHighSurrogate high then
      if isLowSurrogate low then
        (pairSurrogates? rest).map
          (Char.ofNat (0x10000 + (high - 0xd800) * 0x400 + (low - 0xdc00)) :: ·)
      else none
    else if isLowSurrogate high then none
    else (pairSurrogates? (low :: rest)).map (Char.ofNat high :: ·)

/-- The string of some codes. -/
def ofCodes (codes : List Nat) : Json :=
  match pairSurrogates? codes with
  | some text => .string (String.ofList text)
  | none => .brokenString codes

/-! ## Numbers -/

/-- At least one digit, and what follows the digits. -/
def readDigits (text : List Char) : Option (List Char × List Char) :=
  match text.span Char.isDigit with
  | ([], _) => none
  | (digits, rest) => some (digits, rest)

/-- The digits before the point.  A zero stands alone. -/
def readWhole : List Char → Option (List Char × List Char)
  | '0' :: rest =>
    match rest with
    | c :: _ => if c.isDigit then none else some (['0'], rest)
    | [] => some (['0'], rest)
  | text => readDigits text

/-- The point and the digits after it, if there is a point. -/
def readPlaces : List Char → Option (List Char × List Char)
  | '.' :: rest => (readDigits rest).map fun (digits, rest) => ('.' :: digits, rest)
  | text => some ([], text)

/-- The sign of an exponent, if there is one. -/
def readSign : List Char → List Char × List Char
  | '+' :: rest => (['+'], rest)
  | '-' :: rest => (['-'], rest)
  | text => ([], text)

/-- The exponent, if there is one. -/
def readExponent : List Char → Option (List Char × List Char)
  | [] => some ([], [])
  | c :: rest =>
    if c = 'e' || c = 'E' then
      let (sign, rest) := readSign rest
      (readDigits rest).map fun (digits, rest) => (c :: sign ++ digits, rest)
    else some ([], c :: rest)

/-- A number without its sign. -/
def readUnsigned (text : List Char) : Option (List Char × List Char) := do
  let (whole, rest) ← readWhole text
  let (places, rest) ← readPlaces rest
  let (exponent, rest) ← readExponent rest
  return (whole ++ places ++ exponent, rest)

/-- A number. -/
def readNumber : List Char → Option (Json × List Char)
  | '-' :: rest =>
    (readUnsigned rest).map fun (text, rest) => (.number (String.ofList ('-' :: text)), rest)
  | text => (readUnsigned text).map fun (text, rest) => (.number (String.ofList text), rest)

/-! ## Values -/

/-- The codes of a field's key, and what follows the colon after it. -/
def readKey (text : List Char) : Option (List Nat × List Char) :=
  match skipBlanks text with
  | '"' :: rest =>
    match readCodes rest with
    | none => none
    | some (codes, rest) =>
      match skipBlanks rest with
      | ':' :: rest => some (codes, rest)
      | _ => none
  | _ => none

/-- Fields with texts for keys, if every key is one. -/
def pairKeys? : List (List Nat × Json) → Option (List (String × Json))
  | [] => some []
  | (codes, value) :: fields =>
    match pairSurrogates? codes, pairKeys? fields with
    | some key, some fields => some ((String.ofList key, value) :: fields)
    | _, _ => none

/-- The object of some fields. -/
def ofFields (fields : List (List Nat × Json)) : Json :=
  match pairKeys? fields with
  | some fields => .object fields
  | none => .brokenObject fields

mutual

/-- A value, with as many levels of nesting as the bound allows. -/
def readValue : Nat → List Char → Option (Json × List Char)
  | 0, _ => none
  | bound + 1, text =>
    match skipBlanks text with
    | 'n' :: 'u' :: 'l' :: 'l' :: rest => some (.null, rest)
    | 't' :: 'r' :: 'u' :: 'e' :: rest => some (.boolean true, rest)
    | 'f' :: 'a' :: 'l' :: 's' :: 'e' :: rest => some (.boolean false, rest)
    | '"' :: rest => (readCodes rest).map fun (codes, rest) => (ofCodes codes, rest)
    | '[' :: rest =>
      match skipBlanks rest with
      | ']' :: rest => some (.array [], rest)
      | _ => (readItems bound rest).map fun (items, rest) => (.array items, rest)
    | '{' :: rest =>
      match skipBlanks rest with
      | '}' :: rest => some (.object [], rest)
      | _ => (readFields bound rest).map fun (fields, rest) => (ofFields fields, rest)
    | text => readNumber text

/-- The items of an array, at least one, up to its end. -/
def readItems : Nat → List Char → Option (List Json × List Char)
  | 0, _ => none
  | bound + 1, text =>
    match readValue bound text with
    | none => none
    | some (item, rest) =>
      match skipBlanks rest with
      | ']' :: rest => some ([item], rest)
      | ',' :: rest => (readItems bound rest).map fun (items, rest) => (item :: items, rest)
      | _ => none

/-- The fields of an object, at least one, up to its end. -/
def readFields : Nat → List Char → Option (List (List Nat × Json) × List Char)
  | 0, _ => none
  | bound + 1, text =>
    match readKey text with
    | none => none
    | some (key, rest) =>
      match readValue bound rest with
      | none => none
      | some (value, rest) =>
        match skipBlanks rest with
        | '}' :: rest => some ([(key, value)], rest)
        | ',' :: rest =>
          (readFields bound rest).map fun (fields, rest) => ((key, value) :: fields, rest)
        | _ => none

end

/-- The value that a text holds. -/
def ofText? (text : String) : Option Json :=
  let text := text.toList
  match readValue (text.length + 1) text with
  | none => none
  | some (json, rest) => if (skipBlanks rest).isEmpty then some json else none

end Parlance.Json
