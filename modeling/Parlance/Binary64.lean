/-!
# Binary floating-point numbers of 64 bits

A number is kept as its bits: one for the sign, eleven for the exponent and 52 for the fraction.
A finite number is its sign times `significand * 2 ^ scale`, both computed here with natural
numbers and integers, and `ofRatio` goes the other way, from an exact quotient to the nearest
number.  No operation of the machine's floating-point unit is used.
-/

namespace Parlance

/-- A floating-point number. -/
structure Binary64 where
  bits : UInt64
  deriving DecidableEq, Inhabited

namespace Binary64

/-! ## Fields -/

/-- The weight of the sign bit, the highest one. -/
def signWeight : Nat := 1 <<< 63

/-- The weight of the lowest bit of the exponent, which is also the leading bit of the significand
of a number whose exponent field is not zero. -/
def exponentWeight : Nat := 1 <<< 52

/-- Whether the sign bit is set. -/
def isNegative (x : Binary64) : Bool := signWeight ≤ x.bits.toNat

/-- The bits below the sign. -/
def magnitude (x : Binary64) : Nat := x.bits.toNat % signWeight

/-- The eleven bits of the exponent. -/
def exponentField (x : Binary64) : Nat := x.magnitude / exponentWeight

/-- The 52 bits of the fraction. -/
def fraction (x : Binary64) : Nat := x.magnitude % exponentWeight

/-- The bits of infinity below the sign. -/
def infinityMagnitude : Nat := 2047 * exponentWeight

def isNaN (x : Binary64) : Bool := infinityMagnitude < x.magnitude

def isInfinite (x : Binary64) : Bool := x.magnitude = infinityMagnitude

def isFinite (x : Binary64) : Bool := x.magnitude < infinityMagnitude

def isZero (x : Binary64) : Bool := x.magnitude = 0

/-- A finite number is `significand * 2 ^ scale`, up to its sign. -/
def significand (x : Binary64) : Nat :=
  if x.exponentField = 0 then x.fraction else exponentWeight + x.fraction

/-- A finite number is `significand * 2 ^ scale`, up to its sign. -/
def scale (x : Binary64) : Int :=
  if x.exponentField = 0 then -1074 else (x.exponentField : Int) - 1075

/-- Numeric equality: the two zeros are equal, and a NaN equals nothing. -/
def equals (x y : Binary64) : Bool :=
  !x.isNaN && !y.isNaN && (x.bits == y.bits || (x.isZero && y.isZero))

/-! ## Making numbers -/

/-- The number with a sign and the bits below it. -/
def ofMagnitude (negative : Bool) (magnitude : Nat) : Binary64 :=
  ⟨UInt64.ofNat ((if negative then signWeight else 0) + magnitude)⟩

def infinity (negative : Bool) : Binary64 := ofMagnitude negative infinityMagnitude

def nan : Binary64 := ofMagnitude false (infinityMagnitude + exponentWeight / 2)

/-- The integer nearest to `num / den`, the even one when two are equally near. -/
def roundQuotient (num den : Nat) : Nat :=
  let quotient := num / den
  let twice := 2 * (num % den)
  if twice < den then quotient
  else if den < twice then quotient + 1
  else quotient + quotient % 2

/-- The power of two at or below `num / den`, by its exponent. -/
def binaryExponent (num den : Nat) : Int :=
  let estimate : Int := (num.log2 : Int) - den.log2
  let atMost :=
    if 0 ≤ estimate then den <<< estimate.toNat ≤ num
    else den ≤ num <<< (-estimate).toNat
  if atMost then estimate else estimate - 1

/-- The number nearest to `num / den` with a sign, the one with the even significand when two are
equally near.  Quotients beyond the largest number become infinite. -/
def ofRatio (negative : Bool) (num den : Nat) : Binary64 :=
  if num = 0 then ofMagnitude negative 0
  else
    let scale : Int := max (binaryExponent num den - 52) (-1074)
    let significand :=
      if 0 ≤ scale then roundQuotient num (den <<< scale.toNat)
      else roundQuotient (num <<< (-scale).toNat) den
    let magnitude := (scale + 1074).toNat * exponentWeight + significand
    if infinityMagnitude ≤ magnitude then infinity negative else ofMagnitude negative magnitude

/-- The number nearest to an integer. -/
def ofInt (i : Int) : Binary64 := ofRatio (i < 0) i.natAbs 1

/-- The integer that a finite number without fractional part stands for. -/
def toInt? (x : Binary64) : Option Int :=
  if x.isFinite then
    let whole : Option Nat :=
      if 0 ≤ x.scale then some (x.significand <<< x.scale.toNat)
      else
        let unit := 1 <<< (-x.scale).toNat
        if x.significand % unit = 0 then some (x.significand / unit) else none
    whole.map fun n => if x.isNegative then -(n : Int) else n
  else none

end Binary64

end Parlance
