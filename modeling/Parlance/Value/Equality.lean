import Parlance.Script.Equality
import Parlance.Value

/-!
# Equality of values

Reals compare as numbers, so a NaN differs from itself and the two zeros are equal.  Dictionaries
are equal when they have the same keys with equal values, in whatever order.  Scripts compare tree
and text.  Commands and custom selectors compare by identity.
-/

namespace Parlance

mutual

/-- Decides equality of values. -/
def Value.equals : Value → Value → Bool
  | .nil, .nil => true
  | .boolean a, .boolean b => a == b
  | .integer a, .integer b => a == b
  | .real a, .real b => a.equals b
  | .string a, .string b => a == b
  | .list a, .list b => Value.allEqual a b
  | .tuple a, .tuple b => Value.allEqual a b
  | .dictionary a, .dictionary b => a.length == b.length && Value.entriesWithin a b
  | .script a s, .script b t => decide (a = b) && s == t
  | .command a, .command b => decide (a = b)
  | .qualified a s, .qualified b t => Value.equals a b && Selector.allEqual s t
  | _, _ => false

/-- Decides equality of lists of values. -/
def Value.allEqual : List Value → List Value → Bool
  | [], [] => true
  | a :: as, b :: bs => Value.equals a b && Value.allEqual as bs
  | _, _ => false

/-- Whether the second list of entries gives every key of the first an equal value. -/
def Value.entriesWithin : List (String × Value) → List (String × Value) → Bool
  | [], _ => true
  | (key, a) :: rest, entries =>
    (match findEntry key entries with
      | some b => Value.equals a b
      | none => false) && Value.entriesWithin rest entries

/-- Decides equality of selectors. -/
def Selector.equals : Selector → Selector → Bool
  | .indexed a, .indexed b => Value.equals a b
  | .keyed a, .keyed b => Value.allEqual a b
  | .generic a, .generic b => Value.allEqual a b
  | .custom a, .custom b => a.identity == b.identity
  | _, _ => false

/-- Decides equality of lists of selectors. -/
def Selector.allEqual : List Selector → List Selector → Bool
  | [], [] => true
  | a :: as, b :: bs => Selector.equals a b && Selector.allEqual as bs
  | _, _ => false

end

end Parlance
