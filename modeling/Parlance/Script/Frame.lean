import Parlance.Script.Draft
import Parlance.Script.ParseError
import Parlance.Script.Shape

/-!
# Open constructs

A text is read with a stack of frames, one for each construct that is open, the innermost first.
A closing delimiter turns the innermost frame into a morpheme of the frame below it.  Text that is
taken as it stands (blocks, here-strings, tagged strings, comments) is cut from a log of the
sequences of all tokens read; a frame notes the number of tokens before its text.
-/

namespace Parlance

namespace Frame

/-- What encloses a list of sentences. -/
inductive Enclosure where
  | root
  | tuple
  | block
  | expression
  deriving DecidableEq, Inhabited

/-- The brackets of an enclosure. -/
def Enclosure.delimiter : Enclosure → Option Delimiter
  | .root => none
  | .tuple => some .parenthesis
  | .block => some .brace
  | .expression => some .bracket

/-- A word under construction. -/
structure OpenWord where
  morphemes : Draft
  position : Option Position

/-- A list of sentences under construction. -/
structure Sentences where
  enclosure : Enclosure
  /-- Place of the opening bracket. -/
  openedAt : Position
  /-- The position that the tree will hold. -/
  position : Option Position
  /-- Number of tokens before the first one inside. -/
  textStart : Nat
  /-- The finished sentences, the latest first. -/
  sentences : List Sentence
  /-- The finished words of the open sentence, the latest first. -/
  words : List Word
  /-- Position of the first of those words. -/
  sentencePosition : Option Position
  word : Option OpenWord

/-- A quoted string under construction. -/
structure Quoted where
  openedAt : Position
  position : Option Position
  morphemes : Draft

/-- A here-string under construction. -/
structure Here where
  openedAt : Position
  position : Option Position
  delimiterLength : Nat
  textStart : Nat

/-- A tagged string under construction. -/
structure Tagged where
  openedAt : Position
  position : Option Position
  tag : String
  /-- Number of tokens before the first full line; none within the opening line. -/
  textStart : Option Nat
  /-- Number of tokens before the tag when the latest token may be the closing one. -/
  tagStart : Option Nat

/-- A comment that ends with its line. -/
structure LineComment where
  openedAt : Position
  position : Option Position
  delimiterLength : Nat
  textStart : Nat
  /-- No token was read since the `#`. -/
  fresh : Bool

/-- A comment that ends with a brace and a run of `#`. -/
structure BlockComment where
  openedAt : Position
  position : Option Position
  delimiterLength : Nat
  textStart : Nat
  /-- Number of comments open, this one and those nested in it. -/
  nesting : Nat
  /-- The latest token was a run of `#` of the right length. -/
  afterHash : Bool
  /-- Number of tokens before the latest one when that was a closing brace. -/
  closeStart : Option Nat

end Frame

/-- An open construct. -/
inductive Frame where
  | sentences (frame : Frame.Sentences)
  | quoted (frame : Frame.Quoted)
  /-- Two quotes: an empty string, or the start of a tagged string when text follows. -/
  | quotePair (openedAt : Position) (position : Option Position)
  | here (frame : Frame.Here)
  | tagged (frame : Frame.Tagged)
  | lineComment (frame : Frame.LineComment)
  | blockComment (frame : Frame.BlockComment)

namespace Frame

open ParseError (Cause)

namespace Sentences

/-- A frame without sentences. -/
def start (enclosure : Enclosure) (openedAt : Position) (position : Option Position)
    (textStart : Nat) : Sentences :=
  ⟨enclosure, openedAt, position, textStart, [], [], none, none⟩

/-- Edits the open word; the word starts at `position` if none is open.  Nothing can be added to
a word that ends with a string. -/
def editWord (position : Option Position) (edit : Draft → Draft) (frame : Sentences) :
    Except Cause Sentences :=
  let word := frame.word.getD ⟨.empty, position⟩
  if word.morphemes.endsWithString then .error .extraCharactersAfterStringDelimiter
  else .ok { frame with word := some { word with morphemes := edit word.morphemes } }

/-- Adds a morpheme to the open word. -/
def pushMorpheme (morpheme : Morpheme) (frame : Sentences) : Except Cause Sentences :=
  frame.editWord morpheme.position (Draft.push morpheme)

/-- Finishes the open word, if there is one.  It must have a valid shape. -/
def closeWord (frame : Sentences) : Except Cause Sentences :=
  match frame.word with
  | none => .ok frame
  | some ⟨morphemes, position⟩ =>
    let word : Word := ⟨morphemes.settle.toList, position⟩
    if word.shape = .invalid then .error .syntaxError
    else .ok
      { frame with
        word := none
        words := word :: frame.words
        sentencePosition := if frame.words.isEmpty then position else frame.sentencePosition }

/-- Finishes the open sentence.  A sentence without words is dropped. -/
def closeSentence (frame : Sentences) : Except Cause Sentences :=
  frame.closeWord.map fun frame =>
    if frame.words.isEmpty then frame
    else
      { frame with
        sentences := ⟨frame.words.reverse, frame.sentencePosition⟩ :: frame.sentences
        words := []
        sentencePosition := none }

/-- The script of a frame whose end is reached. -/
def finish (frame : Sentences) : Except Cause Script :=
  frame.closeSentence.map fun frame => ⟨frame.sentences.reverse, frame.position⟩

end Sentences

/-- Hands a finished morpheme to the innermost frame. -/
def addMorpheme (morpheme : Morpheme) : List Frame → Except Cause (List Frame)
  | .sentences frame :: below =>
    (frame.pushMorpheme morpheme).map fun frame => .sentences frame :: below
  | .quoted frame :: below =>
    .ok (.quoted { frame with morphemes := frame.morphemes.push morpheme } :: below)
  | _ => .error .syntaxError

/-! ## Tagged strings -/

/-- Cuts a text after each newline.  The piece after the last newline comes apart from the
others, which are given without their newlines. -/
def splitLines : List Char → List (List Char) × List Char
  | [] => ([], [])
  | c :: text =>
    let (lines, last) := splitLines text
    if c = '\n' then ([] :: lines, last)
    else
      match lines with
      | [] => ([], c :: last)
      | line :: lines => ((c :: line) :: lines, last)

/-- The text of a tagged string.  The body runs up to the closing tag; as many characters as stand
before that tag on its line are removed from every other line. -/
def unindent (body : String) : String :=
  let (lines, indent) := splitLines body.toList
  String.ofList (lines.flatMap fun line => line.drop indent.length ++ ['\n'])

end Frame

end Parlance
