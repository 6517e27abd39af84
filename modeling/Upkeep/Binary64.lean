/-!
# Binary64 numbers

The 64-bit binary floating-point format by its bit patterns, with arithmetic carried out exactly on
natural numbers and rounded once, to nearest with ties to even. Every finite magnitude is a whole
number of *units* of `2 ^ -1074`, the smallest positive number of the format.
-/

namespace Upkeep

/-- A number in the 64-bit binary format. -/
structure Binary64 where
  bits : UInt64
  deriving DecidableEq

namespace Binary64

/-- How many units make one: `2 ^ 1074`. -/
def unitsPerOne : Nat := Nat.pow 2 1074

/-- The weight of the sign among the bits: `2 ^ 63`. -/
def signBit : Nat := 9223372036854775808

/-- How many patterns share an exponent: `2 ^ 52`. -/
def perExponent : Nat := 4503599627370496

def isNegative (x : Binary64) : Bool := signBit ≤ x.bits.toNat

/-- The bits without the sign. -/
def magnitude (x : Binary64) : Nat := x.bits.toNat % signBit

/-- The pattern of the infinities, which all finite magnitudes are below. -/
def infinityBits : Nat := 2047 * perExponent

def isFinite (x : Binary64) : Bool := x.magnitude < infinityBits

def isNaN (x : Binary64) : Bool := infinityBits < x.magnitude

/-- The binary exponent of the last place, in units. -/
def scale (x : Binary64) : Nat := x.magnitude / perExponent - 1

/-- The digits down to the last place, as a whole number. -/
def significand (x : Binary64) : Nat :=
  if x.magnitude < perExponent then x.magnitude else x.magnitude % perExponent + perExponent

/-- The magnitude of a finite number in units. -/
def units (x : Binary64) : Nat := x.significand * Nat.pow 2 x.scale

/-- The quotient rounded to a whole number, ties to even. -/
def divEven (num den : Nat) : Nat :=
  let q := num / den
  let twice := 2 * (num % den)
  if twice < den then q
  else if twice = den then q + q % 2
  else q + 1

def ofMagnitude (neg : Bool) (m : Nat) : Binary64 :=
  ⟨UInt64.ofNat ((if neg then signBit else 0) + m)⟩

def nan : Binary64 := ofMagnitude false (infinityBits + perExponent / 2)

/-- The number nearest to `num / den` units; beyond the largest finite number, infinity. -/
def ofUnits (neg : Bool) (num den : Nat) : Binary64 :=
  let shift := (num / den).log2 - 52
  ofMagnitude neg (min infinityBits (shift * perExponent + divEven num (den * Nat.pow 2 shift)))

/-- The number nearest to `num / den`. -/
def ofRatio (neg : Bool) (num den : Nat) : Binary64 := ofUnits neg (num * unitsPerOne) den

def ofNat (n : Nat) : Binary64 := ofRatio false n 1

def ofInt (i : Int) : Binary64 := ofRatio (i < 0) i.natAbs 1

def zero : Binary64 := ⟨0⟩

def neg (x : Binary64) : Binary64 := ofMagnitude (!x.isNegative) x.magnitude

def isZero (x : Binary64) : Bool := x.magnitude = 0

/-- The signed number of units of a finite number. -/
def signedUnits (x : Binary64) : Int := if x.isNegative then -x.units else x.units

/-- The sum. An exact zero is negative only if both terms are. -/
def add (x y : Binary64) : Binary64 :=
  if x.isNaN || y.isNaN then nan
  else if !x.isFinite then
    if y.isFinite || x.isNegative = y.isNegative then x else nan
  else if !y.isFinite then y
  else
    let s := x.signedUnits + y.signedUnits
    if s = 0 then ofMagnitude (x.isNegative && y.isNegative) 0
    else ofUnits (s < 0) s.natAbs 1

/-- The product of finite numbers. -/
def mul (x y : Binary64) : Binary64 :=
  ofUnits (x.isNegative != y.isNegative) (x.units * y.units) unitsPerOne

/-- The quotient of finite numbers, for a divisor that is not zero. -/
def div (x y : Binary64) : Binary64 :=
  ofUnits (x.isNegative != y.isNegative) (x.units * unitsPerOne) y.units

/-- A finite number rounded to a whole number, halves away from zero. -/
def round (x : Binary64) : Binary64 :=
  ofRatio x.isNegative ((2 * x.units + unitsPerOne) / (2 * unitsPerOne)) 1

/-- The same number; the two zeros are the same, and NaN is no number. -/
def sameAs (x y : Binary64) : Bool :=
  !x.isNaN && !y.isNaN && (x = y || (x.isZero && y.isZero))

end Binary64

end Upkeep
