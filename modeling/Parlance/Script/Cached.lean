import Parlance.Json.Reader
import Parlance.Numeral
import Parlance.Script
import Parlance.Token

/-!
# Stored scripts

A script is stored as JSON so that it need not be parsed again.  Every node is an object with its
fields in a fixed order, a position that is missing is null, and a kind is an object whose only
field is named after it.

Reading is more tolerant than writing.  The fields of an object can come in any order, fields that
mean nothing are passed over, and the position of a node can be left out.  An array of all its
fields stands for an object.  A field that comes twice, or a number that needs more than 64 bits,
is refused.  So is a script whose stored form is deeper than 127 levels of arrays and objects.  What
is passed over counts for nothing there: the depth is that of the script alone.
-/

namespace Parlance

namespace Json

/-! ## Objects with known fields -/

/-- A natural number of at most 64 bits. -/
def toNat? : Json → Option Nat
  | .number text =>
    match Numeral.readDigits? text.toList with
    | some n => if n < UInt64.size then some n else none
    | none => none
  | _ => none

def toText? : Json → Option String
  | .string text => some text
  | _ => none

def toBool? : Json → Option Bool
  | .boolean value => some value
  | _ => none

/-- The value of a field, if the field is there; nothing at all if it comes twice. -/
def field? (name : String) : List (String × Json) → Option (Option Json)
  | [] => some none
  | (key, value) :: rest =>
    match field? name rest with
    | none => none
    | some found =>
      if key = name then
        match found with
        | none => some (some value)
        | some _ => none
      else some found

/-- The values of fields that must all be there, from an object or from an array. -/
def fields? (names : List String) : Json → Option (List Json)
  | .object fields => names.mapM fun name => (field? name fields).join
  | .array items => if items.length = names.length then some items else none
  | _ => none

end Json

/-! ## Positions and tokens -/

namespace Position

/-- A position as it is stored. -/
def toJson (position : Position) : Json :=
  .object [("index", .ofNat position.index), ("line", .ofNat position.line),
    ("column", .ofNat position.column)]

/-- Reads a position. -/
def ofJson? (json : Json) : Option Position :=
  match json.fields? ["index", "line", "column"] with
  | some [index, line, column] =>
    match index.toNat?, line.toNat?, column.toNat? with
    | some index, some line, some column => some ⟨index, line, column⟩
    | _, _, _ => none
  | _ => none

/-- The position of a node as it is stored, null for none. -/
def optionToJson : Option Position → Json
  | none => .null
  | some position => position.toJson

/-- Reads the position of a node, null for none. -/
def optionOfJson? : Json → Option (Option Position)
  | .null => some none
  | json => (ofJson? json).map some

end Position

namespace Token

/-- Reads a kind: its name, or an object that gives null to its name. -/
def Kind.ofJson? : Json → Option Kind
  | .string name => ofName? name
  | .object [(name, .null)] => ofName? name
  | _ => none

/-- A token as it is stored. -/
def toJson (token : Token) : Json :=
  .object [("kind", .string token.kind.name), ("position", token.position.toJson),
    ("sequence", .string token.sequence), ("literal", .string token.literal)]

/-- Reads a token. -/
def ofJson? (json : Json) : Option Token :=
  match json.fields? ["kind", "position", "sequence", "literal"] with
  | some [kind, position, sequence, literal] =>
    match Kind.ofJson? kind, Position.ofJson? position, sequence.toText?, literal.toText? with
    | some kind, some position, some sequence, some literal =>
      some ⟨kind, position, sequence, literal⟩
    | _, _, _, _ => none
  | _ => none

/-- Tokens as they are stored. -/
def listToJson (tokens : List Token) : Json := .array (tokens.map toJson)

/-- Reads a list of tokens. -/
def listOfJson? : Json → Option (List Token)
  | .array items => items.mapM ofJson?
  | _ => none

end Token

/-! ## Writing scripts -/

namespace Script

mutual

/-- A script as it is stored. -/
def toJson : Script → Json
  | ⟨sentences, position⟩ =>
    .object [("sentences", .array (sentencesToJson sentences)),
      ("position", Position.optionToJson position)]

def sentencesToJson : List Sentence → List Json
  | [] => []
  | ⟨words, position⟩ :: rest =>
    .object [("words", .array (wordsToJson words)),
      ("position", Position.optionToJson position)] :: sentencesToJson rest

def wordsToJson : List Word → List Json
  | [] => []
  | ⟨morphemes, position⟩ :: rest =>
    .object [("morphemes", .array (morphemesToJson morphemes)),
      ("position", Position.optionToJson position)] :: wordsToJson rest

def morphemesToJson : List Morpheme → List Json
  | [] => []
  | ⟨kind, position⟩ :: rest =>
    .object [("kind", kindToJson kind), ("position", Position.optionToJson position)] ::
      morphemesToJson rest

def kindToJson : Morpheme.Kind → Json
  | .literal text => .object [("Literal", .string text)]
  | .tuple script => .object [("Tuple", toJson script)]
  | .block script text =>
    .object [("Block", .object [("subscript", toJson script), ("value", .string text)])]
  | .expression script => .object [("Expression", toJson script)]
  | .string parts => .object [("String", .array (morphemesToJson parts))]
  | .hereString text length =>
    .object [("HereString",
      .object [("value", .string text), ("delimiter_length", .ofNat length)])]
  | .taggedString text tag =>
    .object [("TaggedString", .object [("value", .string text), ("tag", .string tag)])]
  | .lineComment text length =>
    .object [("LineComment",
      .object [("value", .string text), ("delimiter_length", .ofNat length)])]
  | .blockComment text length =>
    .object [("BlockComment",
      .object [("value", .string text), ("delimiter_length", .ofNat length)])]
  | .marker expands levels text =>
    .object [("SubstituteNext",
      .object [("expansion", .boolean expands), ("levels", .ofNat levels),
        ("value", .string text)])]

end

/-! ## Reading scripts -/

/-- The parts of a node, as far as its fields have been read. -/
structure Parts (α : Type) where
  content : Option α
  position : Option (Option Position)

namespace Parts

def none {α : Type} : Parts α := ⟨.none, .none⟩

/-- Adds the content of the node, which must not come twice. -/
def addContent {α : Type} (parts : Parts α) (content : Option α) : Option (Parts α) :=
  match parts.content, content with
  | .none, some content => some { parts with content := some content }
  | _, _ => .none

/-- Adds the position of the node, which must not come twice. -/
def addPosition {α : Type} (parts : Parts α) (json : Json) : Option (Parts α) :=
  match parts.position, Position.optionOfJson? json with
  | .none, some position => some { parts with position := some position }
  | _, _ => .none

/-- The node that the parts make.  Its position can be missing. -/
def make {α β : Type} (node : α → Option Position → β) (parts : Parts α) : Option β :=
  parts.content.map fun content => node content (parts.position.getD .none)

end Parts

/-- A text and the length of its delimiters. -/
def delimitedOfJson? (json : Json) : Option (String × Nat) :=
  match json.fields? ["value", "delimiter_length"] with
  | some [text, length] =>
    match text.toText?, length.toNat? with
    | some text, some length => some (text, length)
    | _, _ => none
  | _ => none

/-- A text and its tag. -/
def taggedOfJson? (json : Json) : Option (String × String) :=
  match json.fields? ["value", "tag"] with
  | some [text, tag] =>
    match text.toText?, tag.toText? with
    | some text, some tag => some (text, tag)
    | _, _ => none
  | _ => none

/-- A marker. -/
def markerOfJson? (json : Json) : Option Morpheme.Kind :=
  match json.fields? ["expansion", "levels", "value"] with
  | some [expands, levels, text] =>
    match expands.toBool?, levels.toNat?, text.toText? with
    | some expands, some levels, some text => some (.marker expands levels text)
    | _, _, _ => none
  | _ => none

mutual

/-- Reads a script. -/
def ofJson? : Json → Option Script
  | .object fields => (scriptParts fields).bind (Parts.make Script.mk)
  | .array [sentences, position] =>
    match sentencesOfJson? sentences, Position.optionOfJson? position with
    | some sentences, some position => some ⟨sentences, position⟩
    | _, _ => none
  | _ => none

def scriptParts : List (String × Json) → Option (Parts (List Sentence))
  | [] => some .none
  | (key, value) :: rest =>
    match scriptParts rest with
    | none => none
    | some parts =>
      if key = "sentences" then parts.addContent (sentencesOfJson? value)
      else if key = "position" then parts.addPosition value
      else some parts

def sentencesOfJson? : Json → Option (List Sentence)
  | .array items => sentenceList items
  | _ => none

def sentenceList : List Json → Option (List Sentence)
  | [] => some []
  | item :: rest =>
    match sentenceOfJson? item, sentenceList rest with
    | some sentence, some rest => some (sentence :: rest)
    | _, _ => none

def sentenceOfJson? : Json → Option Sentence
  | .object fields => (sentenceParts fields).bind (Parts.make Sentence.mk)
  | .array [words, position] =>
    match wordsOfJson? words, Position.optionOfJson? position with
    | some words, some position => some ⟨words, position⟩
    | _, _ => none
  | _ => none

def sentenceParts : List (String × Json) → Option (Parts (List Word))
  | [] => some .none
  | (key, value) :: rest =>
    match sentenceParts rest with
    | none => none
    | some parts =>
      if key = "words" then parts.addContent (wordsOfJson? value)
      else if key = "position" then parts.addPosition value
      else some parts

def wordsOfJson? : Json → Option (List Word)
  | .array items => wordList items
  | _ => none

def wordList : List Json → Option (List Word)
  | [] => some []
  | item :: rest =>
    match wordOfJson? item, wordList rest with
    | some word, some rest => some (word :: rest)
    | _, _ => none

def wordOfJson? : Json → Option Word
  | .object fields => (wordParts fields).bind (Parts.make Word.mk)
  | .array [morphemes, position] =>
    match morphemesOfJson? morphemes, Position.optionOfJson? position with
    | some morphemes, some position => some ⟨morphemes, position⟩
    | _, _ => none
  | _ => none

def wordParts : List (String × Json) → Option (Parts (List Morpheme))
  | [] => some .none
  | (key, value) :: rest =>
    match wordParts rest with
    | none => none
    | some parts =>
      if key = "morphemes" then parts.addContent (morphemesOfJson? value)
      else if key = "position" then parts.addPosition value
      else some parts

def morphemesOfJson? : Json → Option (List Morpheme)
  | .array items => morphemeList items
  | _ => none

def morphemeList : List Json → Option (List Morpheme)
  | [] => some []
  | item :: rest =>
    match morphemeOfJson? item, morphemeList rest with
    | some morpheme, some rest => some (morpheme :: rest)
    | _, _ => none

def morphemeOfJson? : Json → Option Morpheme
  | .object fields => (morphemeParts fields).bind (Parts.make Morpheme.mk)
  | .array [kind, position] =>
    match kindOfJson? kind, Position.optionOfJson? position with
    | some kind, some position => some ⟨kind, position⟩
    | _, _ => none
  | _ => none

def morphemeParts : List (String × Json) → Option (Parts Morpheme.Kind)
  | [] => some .none
  | (key, value) :: rest =>
    match morphemeParts rest with
    | none => none
    | some parts =>
      if key = "kind" then parts.addContent (kindOfJson? value)
      else if key = "position" then parts.addPosition value
      else some parts

/-- Reads a kind: an object whose only field is named after it. -/
def kindOfJson? : Json → Option Morpheme.Kind
  | .object [(name, content)] =>
    match name with
    | "Literal" => content.toText?.map .literal
    | "Tuple" => (ofJson? content).map .tuple
    | "Block" => blockOfJson? content
    | "Expression" => (ofJson? content).map .expression
    | "String" => (morphemesOfJson? content).map .string
    | "HereString" => (delimitedOfJson? content).map fun (text, length) => .hereString text length
    | "TaggedString" => (taggedOfJson? content).map fun (text, tag) => .taggedString text tag
    | "LineComment" =>
      (delimitedOfJson? content).map fun (text, length) => .lineComment text length
    | "BlockComment" =>
      (delimitedOfJson? content).map fun (text, length) => .blockComment text length
    | "SubstituteNext" => markerOfJson? content
    | _ => none
  | _ => none

def blockOfJson? : Json → Option Morpheme.Kind
  | .object fields =>
    match blockParts fields with
    | some (some script, some text) => some (.block script text)
    | _ => none
  | .array [script, text] =>
    match ofJson? script, text.toText? with
    | some script, some text => some (.block script text)
    | _, _ => none
  | _ => none

def blockParts : List (String × Json) → Option (Option Script × Option String)
  | [] => some (none, none)
  | (key, value) :: rest =>
    match blockParts rest with
    | none => none
    | some (script, text) =>
      if key = "subscript" then
        match script, ofJson? value with
        | none, some script => some (some script, text)
        | _, _ => none
      else if key = "value" then
        match text, value.toText? with
        | none, some text => some (script, some text)
        | _, _ => none
      else some (script, text)

end

/-- A script as stored text. -/
def toCache (script : Script) : String := script.toJson.toText

/-- The depth of stored scripts that can be read back. -/
def maxDepth : Nat := 127

/-- Reads a script from stored text, however deep. -/
def ofCacheUnlimited? (text : String) : Option Script := (Json.ofText? text).bind ofJson?

/-- Reads a script from stored text, unless it is too deep. -/
def ofCache? (text : String) : Option Script :=
  (ofCacheUnlimited? text).filter fun script => script.toJson.depth ≤ maxDepth

end Script

/-- Tokens as stored text. -/
def Token.listToCache (tokens : List Token) : String := (Token.listToJson tokens).toText

/-- Reads tokens from stored text. -/
def Token.listOfCache? (text : String) : Option (List Token) :=
  (Json.ofText? text).bind Token.listOfJson?

end Parlance
