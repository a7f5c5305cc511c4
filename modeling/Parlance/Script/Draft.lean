import Parlance.Script

/-!
# Morphemes under construction

A word and a quoted string grow one morpheme at a time.  Their `Draft` also tracks where it stands
after a marker: a `$` expects something to replace, and what it replaces can be followed by
selectors.  A marker that finds nothing to replace turns back into text.
-/

namespace Parlance

namespace Draft

/-- What a draft expects after its last morpheme. -/
inductive Expecting where
  /-- Nothing in particular. -/
  | nothing
  /-- A marker stands last and has nothing to replace yet. -/
  | target
  /-- A substitution stands last, and selectors would belong to it. -/
  | selectors
  deriving DecidableEq, Inhabited

end Draft

/-- Morphemes under construction. -/
structure Draft where
  /-- The morphemes so far, the latest first. -/
  items : List Morpheme
  expecting : Draft.Expecting

namespace Draft

/-- The draft without morphemes. -/
def empty : Draft := ⟨[], .nothing⟩

/-- Whether a marker waits for something to replace. -/
def isPending (draft : Draft) : Bool := draft.expecting = .target

/-- Whether the latest morpheme is a string. -/
def endsWithString (draft : Draft) : Bool :=
  match draft.items with
  | latest :: _ => latest.kind.isString
  | [] => false

/-- Whether the latest morpheme is a literal that a marker replaces. -/
def endsWithTarget (draft : Draft) : Bool :=
  match draft.items with
  | ⟨.literal _, _⟩ :: ⟨.marker .., _⟩ :: _ => true
  | _ => false

/-- What a draft expects once a literal was added. -/
def Expecting.afterLiteral : Expecting → Expecting
  | .target => .selectors
  | _ => .nothing

/-- Adds a literal as a morpheme of its own. -/
def addLiteral (text : String) (position : Option Position) (draft : Draft) : Draft :=
  ⟨⟨.literal text, position⟩ :: draft.items, draft.expecting.afterLiteral⟩

/-- Adds literal text.  It merges into a literal that stands last.  A literal that a marker
replaces takes only text with `extendsTarget`, and only as long as no selector follows it. -/
def pushLiteral (text : String) (position : Option Position) (extendsTarget : Bool)
    (draft : Draft) : Draft :=
  match draft.items with
  | ⟨.literal value, start⟩ :: before =>
    if !draft.endsWithTarget || (extendsTarget && draft.expecting = .selectors) then
      { draft with items := ⟨.literal (value ++ text), start⟩ :: before }
    else draft.addLiteral text position
  | _ => draft.addLiteral text position

/-- Adds a morpheme that is no literal. -/
def push (morpheme : Morpheme) (draft : Draft) : Draft :=
  ⟨morpheme :: draft.items,
    if draft.expecting ≠ .nothing ∧ morpheme.isSelector then .selectors else .nothing⟩

/-- Adds a marker with one level. -/
def addMarker (position : Option Position) (draft : Draft) : Draft :=
  ⟨⟨.marker false 1 "$", position⟩ :: draft.items, .target⟩

/-- Handles a `$`: a pending marker gains a level, otherwise a marker begins. -/
def pushDollar (position : Option Position) (draft : Draft) : Draft :=
  match draft.items with
  | ⟨.marker expands levels text, start⟩ :: before =>
    if draft.isPending then
      { draft with items := ⟨.marker expands (levels + 1) (text ++ "$"), start⟩ :: before }
    else draft.addMarker position
  | _ => draft.addMarker position

/-- Handles a `*`: a pending marker that does not expand yet begins to, otherwise it is text. -/
def pushAsterisk (text : String) (position : Option Position) (draft : Draft) : Draft :=
  match draft.items with
  | ⟨.marker false levels marker, start⟩ :: before =>
    if draft.isPending then
      { draft with items := ⟨.marker true levels (marker ++ "*"), start⟩ :: before }
    else draft.pushLiteral text position true
  | _ => draft.pushLiteral text position true

/-- Turns a pending marker back into text. -/
def settle (draft : Draft) : Draft :=
  if draft.isPending then
    match draft.items with
    | ⟨.marker _ _ text, position⟩ :: before =>
      pushLiteral text position false ⟨before, .nothing⟩
    | items => ⟨items, .nothing⟩
  else draft

/-- The morphemes in the order they were written. -/
def toList (draft : Draft) : List Morpheme := draft.items.reverse

end Draft

end Parlance
