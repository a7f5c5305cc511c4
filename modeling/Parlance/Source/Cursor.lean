import Parlance.Source

/-!
# A reading head over a text

A `Cursor` walks a text one character at a time and knows the position of the character it stands
on.  What it has read stays at hand, so that the text from an earlier index up to the cursor can
be cut out again.
-/

namespace Parlance

/-- A text, split at the place reached. -/
structure Cursor where
  /-- The characters read, the latest first. -/
  consumed : List Char
  /-- The characters still to read. -/
  rest : List Char
  /-- The place of the first character of `rest`. -/
  position : Position

namespace Cursor

/-! ## Algorithm -/

/-- The cursor before the first character of `text`. -/
def ofString (text : String) : Cursor := ⟨[], text.toList, .start⟩

/-- Whether every character has been read. -/
def atEnd (cursor : Cursor) : Bool := cursor.rest.isEmpty

/-- The character under the cursor. -/
def current (cursor : Cursor) : Option Char := cursor.rest.head?

/-- Moves past the character under the cursor; at the end the cursor stays. -/
def advance (cursor : Cursor) : Cursor :=
  match cursor.rest with
  | [] => cursor
  | c :: rest => ⟨c :: cursor.consumed, rest, cursor.position.advance c⟩

/-- Moves past `n` characters, or to the end. -/
def skip : Nat → Cursor → Cursor
  | 0, cursor => cursor
  | n + 1, cursor => skip n cursor.advance

/-- Number of characters from the cursor on that satisfy `p` without a gap. -/
def countWhile (p : Char → Bool) (cursor : Cursor) : Nat := (cursor.rest.takeWhile p).length

/-- The text from index `start` up to the cursor, empty when `start` lies ahead of it. -/
def sliceFrom (start : Nat) (cursor : Cursor) : String :=
  String.ofList (cursor.consumed.take (cursor.position.index - start)).reverse

/-! ## Lemmas -/

theorem rest_advance (cursor : Cursor) : cursor.advance.rest = cursor.rest.drop 1 := by
  unfold advance
  split <;> simp_all

theorem rest_skip (n : Nat) (cursor : Cursor) : (skip n cursor).rest = cursor.rest.drop n := by
  induction n generalizing cursor with
  | zero => rfl
  | succ n ih => rw [skip, ih, rest_advance, List.drop_drop, Nat.add_comm]

theorem position_skip (n : Nat) (cursor : Cursor) :
    (skip n cursor).position = cursor.position.advanceBy (cursor.rest.take n) := by
  induction n generalizing cursor with
  | zero => rfl
  | succ n ih =>
    rw [skip, ih]
    cases h : cursor.rest with
    | nil => simp [advance, h]
    | cons c rest => simp [advance, h]

end Cursor

end Parlance
