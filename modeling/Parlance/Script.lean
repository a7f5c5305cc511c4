import Parlance.Source

/-!
# Scripts

    Script   = Sentence*        separated by newlines or `;`
    Sentence = Word*            separated by blanks
    Word     = Morpheme+        with nothing between them

A script is kept as it was written: which delimiters a string used, how a marker was spelled and
what stood between the braces of a block are part of the tree.  Every node can hold the position
of its first character; a tree built by hand, or read without positions, holds none.
-/

namespace Parlance

mutual

/-- A list of sentences. -/
structure Script where
  sentences : List Sentence
  position : Option Position

/-- A list of words, run as a command. -/
structure Sentence where
  words : List Word
  position : Option Position

/-- A list of morphemes, written without a gap. -/
structure Word where
  morphemes : List Morpheme
  position : Option Position

/-- A smallest constituent of a word. -/
structure Morpheme where
  kind : Morpheme.Kind
  position : Option Position

/-- The kinds of morpheme. -/
inductive Morpheme.Kind where
  /-- Plain text, with its escapes decoded. -/
  | literal (text : String)
  /-- `( ... )` -/
  | tuple (script : Script)
  /-- `{ ... }`, together with the text between the braces. -/
  | block (script : Script) (text : String)
  /-- `[ ... ]` -/
  | expression (script : Script)
  /-- `" ... "`, made of literals, expressions and substitutions. -/
  | string (parts : List Morpheme)
  /-- A text between runs of three or more quotes, taken as it is. -/
  | hereString (text : String) (delimiterLength : Nat)
  /-- A text between a line that starts with two quotes and a tag and the same tag with two quotes
  after it, without its indent. -/
  | taggedString (text : String) (tag : String)
  /-- `#` and what follows on the line. -/
  | lineComment (text : String) (delimiterLength : Nat)
  /-- `#{ ... }#` with as many `#` on both sides. -/
  | blockComment (text : String) (delimiterLength : Nat)
  /-- `$`, `$$`, `$*` and so on: replace what follows by its value.  There are as many levels as
  `$` signs; a `*` after them asks to expand a tuple into its elements. -/
  | marker (expands : Bool) (levels : Nat) (text : String)

end

instance : Inhabited Script := ⟨⟨[], none⟩⟩
instance : Inhabited Sentence := ⟨⟨[], none⟩⟩
instance : Inhabited Word := ⟨⟨[], none⟩⟩
instance : Inhabited Morpheme.Kind := ⟨.literal ""⟩
instance : Inhabited Morpheme := ⟨⟨.literal "", none⟩⟩

/-- Whether the script has no sentence. -/
def Script.isEmpty (script : Script) : Bool := script.sentences.isEmpty

namespace Morpheme

namespace Kind

/-- Line comments and block comments. -/
def isComment : Kind → Bool
  | .lineComment .. | .blockComment .. => true
  | _ => false

/-- The three quoted forms. -/
def isString : Kind → Bool
  | .string .. | .hereString .. | .taggedString .. => true
  | _ => false

/-- What can follow the root of a word to select from it: keys in parentheses, rules in braces and
an index in brackets. -/
def isSelector : Kind → Bool
  | .tuple .. | .block .. | .expression .. => true
  | _ => false

/-- What a marker can replace. -/
def isSubstitutable : Kind → Bool
  | .literal .. | .tuple .. | .block .. | .expression .. => true
  | _ => false

/-- The name of the kind in messages. -/
def name : Kind → String
  | .literal .. => "literal"
  | .tuple .. => "tuple"
  | .block .. => "block"
  | .expression .. => "expression"
  | .string .. => "string"
  | .hereString .. => "here-string"
  | .taggedString .. => "tagged string"
  | .lineComment .. => "line comment"
  | .blockComment .. => "block comment"
  | .marker .. => "substitute next"

end Kind

/-- Whether the morpheme can select. -/
def isSelector (morpheme : Morpheme) : Bool := morpheme.kind.isSelector

end Morpheme

end Parlance
