import Upkeep.Binary64

/-!
# Shortest decimal digits

The numbers that round to a given one form an interval around it. `Binary64.shortest` gives the
fewest decimal digits whose value lies in that interval and, among those, the nearest to the number
itself, the even one of two equally near.
-/

namespace Upkeep.Binary64

/-- A positive number `digits * 10 ^ exponent`. -/
structure Digits where
  digits : Nat
  exponent : Int
  deriving DecidableEq

namespace Digits

/-- The value over a common divisor: numerator and denominator. -/
def ratio (d : Digits) : Nat × Nat :=
  if 0 ≤ d.exponent then (d.digits * Nat.pow 10 d.exponent.toNat, 1)
  else (d.digits, Nat.pow 10 (-d.exponent).toNat)

/-- Drops the zeros at the end. -/
def trim (d : Digits) : Digits := go d (Nat.toDigits 10 d.digits).length
where
  go (d : Digits) : Nat → Digits
    | 0 => d
    | n + 1 => if d.digits % 10 = 0 then go ⟨d.digits / 10, d.exponent + 1⟩ n else d

end Digits

/-- The magnitudes that round to `x`, in quarter units: the ends count iff the significand is
even. -/
structure Interval where
  low : Nat
  high : Nat
  closed : Bool

/-- The interval of a positive finite number. Below a power of two the next number is half as
far. -/
def interval (x : Binary64) : Interval :=
  let ulp := Nat.pow 2 x.scale
  let below := if x.significand = perExponent && 0 < x.scale then ulp else 2 * ulp
  ⟨4 * x.units - below, 4 * x.units + 2 * ulp, x.significand % 2 = 0⟩

/-- Whether a decimal lies in the interval. -/
def Interval.contains (i : Interval) (d : Digits) : Bool :=
  let (num, den) := d.ratio
  let v := 4 * unitsPerOne * num
  if i.closed then i.low * den ≤ v && v ≤ i.high * den else i.low * den < v && v < i.high * den

/-- The exponent `e` with `10 ^ e ≤ num / den < 10 ^ (e + 1)`. -/
def decimalExponent (num den : Nat) : Int :=
  if den ≤ num then (Nat.toDigits 10 (num / den)).length - 1
  else
    let l := (Nat.toDigits 10 (den / num)).length
    if num * Nat.pow 10 (l - 1) = den then -(l - 1 : Int) else -(l : Int)

/-- The two neighbours of `num / den` among the multiples of `10 ^ e`, and on which side of the
middle it lies. -/
def neighbours (num den : Nat) (e : Int) : Digits × Digits × Ordering :=
  let num' := if 0 ≤ e then num else num * Nat.pow 10 (-e).toNat
  let den' := if 0 ≤ e then den * Nat.pow 10 e.toNat else den
  let q := num' / den'
  (⟨q, e⟩, ⟨q + 1, e⟩, compare (2 * (num' % den')) den')

/-- The better of the neighbours in the interval. -/
def Interval.pick (i : Interval) (num den : Nat) (e : Int) : Option Digits :=
  let (a, b, side) := neighbours num den e
  match i.contains a && a.digits != 0, i.contains b with
  | true, true =>
    match side with
    | .lt => some a
    | .gt => some b
    | .eq => some (if a.digits % 2 = 0 then a else b)
  | true, false => some a
  | false, true => some b
  | false, false => none

/-- The fewest digits that read back to the positive finite number `x`, without zeros at the
end. -/
def shortest (x : Binary64) : Digits :=
  let e := decimalExponent x.units unitsPerOne
  let picked := (List.range 17).findSome? fun (n : Nat) =>
    x.interval.pick x.units unitsPerOne (e - n)
  (picked.getD ⟨x.units, -1074⟩).trim

end Upkeep.Binary64
