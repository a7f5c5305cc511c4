import Parlance.Script

/-!
# The shapes of words

| shape           | made of                                                         |
|-----------------|-----------------------------------------------------------------|
| `root`          | one morpheme, neither a comment nor a marker                    |
| `qualified`     | a literal, tuple or block, then selectors only                  |
| `substitution`  | a marker, what it replaces, then selectors only                 |
| `compound`      | literals, expressions and substitutions without a gap           |
| `ignored`       | one comment                                                     |
| `invalid`       | anything else                                                   |

Selectors are tuples (keys), blocks (rules) and expressions (an index).  A substitution takes every
selector that follows it, so an expression after one is its index and not a stem of its own.
-/

namespace Parlance

/-- What the morphemes of a word make of it. -/
inductive Word.Shape where
  | root
  | compound
  | substitution
  | qualified
  | ignored
  | invalid
  deriving DecidableEq, Inhabited

namespace Morpheme

/-- Number of morphemes that belong to the substitution at the start of a list: the marker, what it
replaces and the selectors after that.  The first morpheme is taken for the marker; there is no
substitution when the second cannot be replaced. -/
def substitutionLength : List Morpheme → Option Nat
  | _ :: target :: rest =>
    if target.kind.isSubstitutable then some (2 + (rest.takeWhile isSelector).length) else none
  | _ => none

/-- Whether a list is made of literals, expressions and substitutions.  When `selecting`, the list
follows a substitution and can go on with its selectors. -/
def areStems (selecting : Bool) : List Morpheme → Bool
  | [] => true
  | morpheme :: rest =>
    match morpheme.kind with
    | .literal .. => areStems false rest
    | .expression .. => areStems selecting rest
    | .tuple .. | .block .. => selecting && areStems true rest
    | .marker .. =>
      match rest with
      | target :: rest => target.kind.isSubstitutable && areStems true rest
      | [] => false
    | _ => false

/-- The shape of a word with these morphemes. -/
def shape : List Morpheme → Word.Shape
  | [] => .invalid
  | [morpheme] =>
    match morpheme.kind with
    | .lineComment .. | .blockComment .. => .ignored
    | .marker .. => .invalid
    | _ => .root
  | morpheme :: rest =>
    match morpheme.kind with
    | .tuple .. | .block .. => if rest.all isSelector then .qualified else .invalid
    | .literal .. =>
      if rest.all isSelector then .qualified
      else if areStems false (morpheme :: rest) then .compound else .invalid
    | .expression .. => if areStems false (morpheme :: rest) then .compound else .invalid
    | .marker .. =>
      if substitutionLength (morpheme :: rest) = some (rest.length + 1) then .substitution
      else if areStems false (morpheme :: rest) then .compound else .invalid
    | _ => .invalid

end Morpheme

/-- The shape of a word. -/
def Word.shape (word : Word) : Word.Shape := Morpheme.shape word.morphemes

end Parlance
