/-!
# Integers in decimal

An integer of 64 bits is written with its digits and a sign if it is negative.  Reading takes one
optional sign and at least one ASCII digit, nothing else, and only numbers that fit.
-/

namespace Parlance.Numeral

/-- The number that a run of digits writes. -/
def ofDigits (run : List Char) : Nat :=
  run.foldl (fun value c => 10 * value + (c.toNat - '0'.toNat)) 0

/-- Reads a run of at least one digit and nothing else. -/
def readDigits? (text : List Char) : Option Nat :=
  if text.isEmpty || !text.all Char.isDigit then none else some (ofDigits text)

/-- The integer of 64 bits with a value, if there is one. -/
def fit? (i : Int) : Option Int64 :=
  if Int64.minValue.toInt ≤ i ∧ i ≤ Int64.maxValue.toInt then some (Int64.ofInt i) else none

/-- Reads an integer. -/
def read? (text : String) : Option Int64 :=
  match text.toList with
  | '-' :: digits => (readDigits? digits).bind fun n => fit? (-n)
  | '+' :: digits => (readDigits? digits).bind fun n => fit? n
  | digits => (readDigits? digits).bind fun n => fit? n

/-- Writes an integer. -/
def write (i : Int64) : String := toString i.toInt

end Parlance.Numeral
