/-!
# Sources and positions

A `Source` says where a script came from, a `Position` where in it something stands.  Positions
count characters, never bytes: `index` addresses the text as a list of characters, and `column`
is what a reader counts in an editor.  Both start from zero; only `label`, the form shown to a
reader, counts from one.

    (p.advanceBy (u ++ v)) = (p.advanceBy u).advanceBy v          (advanceBy_append)
    (p.advanceBy u).index = p.index + u.length                    (index_advanceBy)
-/

namespace Parlance

/-- Where a script came from.  Interactive input has no file name, and a script loaded from disk
may be described by its name alone. -/
structure Source where
  filename : Option String
  content : Option String
  deriving DecidableEq, Inhabited

/-- A place in a text: characters before it, lines before it, characters before it on its line. -/
structure Position where
  index : Nat
  line : Nat
  column : Nat
  deriving DecidableEq, Inhabited

namespace Position

/-- The place before the first character. -/
def start : Position := ⟨0, 0, 0⟩

/-- The place after a character that stands at `p`. -/
def advance (p : Position) (c : Char) : Position :=
  if c = '\n' then ⟨p.index + 1, p.line + 1, 0⟩ else ⟨p.index + 1, p.line, p.column + 1⟩

/-- The place after a text that starts at `p`. -/
def advanceBy (p : Position) (text : List Char) : Position :=
  text.foldl advance p

/-- Line and column as editors show them, both counted from one. -/
def label (p : Position) : String :=
  toString (p.line + 1) ++ ":" ++ toString (p.column + 1)

/-! ## Lemmas -/

@[simp] theorem advanceBy_nil (p : Position) : p.advanceBy [] = p := rfl

@[simp] theorem advanceBy_cons (p : Position) (c : Char) (text : List Char) :
    p.advanceBy (c :: text) = (p.advance c).advanceBy text := rfl

theorem advanceBy_append (p : Position) (u v : List Char) :
    p.advanceBy (u ++ v) = (p.advanceBy u).advanceBy v := by
  simp [advanceBy, List.foldl_append]

theorem index_advance (p : Position) (c : Char) : (p.advance c).index = p.index + 1 := by
  unfold advance
  split <;> rfl

theorem index_advanceBy (p : Position) (text : List Char) :
    (p.advanceBy text).index = p.index + text.length := by
  induction text generalizing p with
  | nil => rfl
  | cons c text ih =>
    rw [advanceBy_cons, ih, index_advance, List.length_cons]
    omega

end Position

end Parlance
