import Parlance.Binary64.Shortest
import Parlance.Numeral

/-!
# Texts of floating-point numbers

A number is written with the digits of its shortest decimal.  The plain text never uses an
exponent, whatever the size of the number, and writes a whole number without a point.  The literal
text always shows that it is no integer: it has a point, or an exponent when the first digit stands
for less than a thousandth of a tenth or for ten to the sixteenth and more.

Reading takes an optional sign, digits with an optional point, and an optional exponent, or the
words `inf`, `infinity` and `nan` in any case, and gives the nearest number.
-/

namespace Parlance.Binary64

/-! ## Writing -/

/-- The digits of a coefficient. -/
def Decimal.digits (d : Decimal) : List Char := (toString d.coefficient).toList

/-- The digits with a point in their place, if there is one between or before them. -/
def Decimal.positional (d : Decimal) : List Char :=
  let digits := d.digits
  if 0 ≤ d.exponent then digits ++ List.replicate d.exponent.toNat '0'
  else
    let places := (-d.exponent).toNat
    if places < digits.length then
      digits.take (digits.length - places) ++ '.' :: digits.drop (digits.length - places)
    else '0' :: '.' :: (List.replicate (places - digits.length) '0' ++ digits)

/-- The exponent of the first digit. -/
def Decimal.leadingExponent (d : Decimal) : Int := d.exponent + (d.digits.length - 1 : Nat)

/-- The digits with a point after the first and an exponent. -/
def Decimal.scientific (d : Decimal) : List Char :=
  let mantissa :=
    match d.digits with
    | [] => []
    | [digit] => [digit]
    | digit :: rest => digit :: '.' :: rest
  mantissa ++ 'e' :: (toString d.leadingExponent).toList

/-- Writes a number, given how to write a finite one without its sign. -/
def write (finite : Binary64 → List Char) (x : Binary64) : String :=
  if x.isNaN then "NaN"
  else
    let sign := if x.isNegative then ['-'] else []
    String.ofList (sign ++ if x.isInfinite then ['i', 'n', 'f'] else finite x)

/-- The plain text of a number. -/
def toText (x : Binary64) : String := write (fun x => x.shortest.positional) x

/-- The text of a number that can be told from an integer. -/
def toLiteral (x : Binary64) : String :=
  write (fun x =>
    let decimal := x.shortest
    let leading := decimal.leadingExponent
    if !x.isZero && (leading < -4 || 16 ≤ leading) then decimal.scientific
    else
      let text := decimal.positional
      if text.contains '.' then text else text ++ ['.', '0']) x

/-! ## Reading -/

/-- The digits at the start of a text. -/
def spanDigits (text : List Char) : List Char × List Char := text.span Char.isDigit

/-- An exponent: a sign and at least one digit. -/
def readExponent? : List Char → Option Int
  | [] => none
  | c :: text =>
    let (negative, digits) :=
      if c = '-' then (true, text) else if c = '+' then (false, text) else (false, c :: text)
    (Numeral.readDigits? digits).map fun n => if negative then -(n : Int) else n

/-- An unsigned decimal: digits with an optional point, at least one digit, then perhaps an
exponent. -/
def readDecimal? (text : List Char) : Option Decimal :=
  let (whole, rest) := spanDigits text
  let (places, rest) :=
    match rest with
    | '.' :: rest => spanDigits rest
    | rest => ([], rest)
  if whole.isEmpty && places.isEmpty then none
  else
    let coefficient := Numeral.ofDigits (whole ++ places)
    match rest with
    | [] => some ⟨coefficient, -places.length⟩
    | c :: rest =>
      if c = 'e' || c = 'E' then
        (readExponent? rest).map fun exponent => ⟨coefficient, exponent - places.length⟩
      else none

/-- The number nearest to a decimal.  Decimals far outside the range are not computed: above
`10 ^ 310` they are infinite, below `10 ^ -330` they are zero. -/
def ofDecimal (negative : Bool) (d : Decimal) : Binary64 :=
  if d.coefficient = 0 then ofMagnitude negative 0
  else if 310 < d.leadingExponent then infinity negative
  else if d.leadingExponent < -330 then ofMagnitude negative 0
  else
    ofRatio negative (d.coefficient * Nat.pow 10 d.exponent.toNat)
      (Nat.pow 10 (-d.exponent).toNat)

/-- Reads a number. -/
def ofText? (text : String) : Option Binary64 :=
  let (negative, text) :=
    match text.toList with
    | '-' :: text => (true, text)
    | '+' :: text => (false, text)
    | text => (false, text)
  match readDecimal? text with
  | some decimal => some (ofDecimal negative decimal)
  | none =>
    let word := String.ofList (text.map Char.toLower)
    if word = "inf" || word = "infinity" then some (infinity negative)
    else if word = "nan" then some nan
    else none

end Parlance.Binary64
