import Upkeep.Json.Token
import Upkeep.Json.Value

/-!
# What a numeral denotes

A numeral without point and exponent is a whole number if it fits a word. All others are binary64
numbers: the digits are collected into a word of 64 bits for as long as they fit it, and the result
is scaled by one power of ten, exact up to a rounding of each step. A numeral beyond the finite
range denotes nothing.
-/

namespace Upkeep.Json.Numeral

/-- Digits collected so far, with the power of ten that they are to be scaled by. -/
structure Collected where
  significand : Nat := 0
  exponent : Int := 0
  full : Bool := false

/-- A digit before the point: one that does not fit counts as a factor of ten. -/
def Collected.pushWhole (a : Collected) (d : Nat) : Collected :=
  if a.full || UInt64.size ≤ 10 * a.significand + d then
    { a with exponent := a.exponent + 1, full := true }
  else { a with significand := 10 * a.significand + d }

/-- A digit after the point: one that does not fit is dropped with all that follow. -/
def Collected.pushFraction (a : Collected) (d : Nat) : Collected :=
  if a.full || UInt64.size ≤ 10 * a.significand + d then { a with full := true }
  else { a with significand := 10 * a.significand + d, exponent := a.exponent - 1 }

def ofDigits (ds : List Nat) : Nat := ds.foldl (fun n d => 10 * n + d) 0

/-- The digits of a numeral as one scaled word. -/
def collected (n : Numeral) : Collected :=
  let whole := n.whole.foldl Collected.pushWhole {}
  let all := n.fraction.foldl Collected.pushFraction { whole with full := false }
  let e : Int := ofDigits n.exponent
  { all with exponent := all.exponent + if n.exponentNegative then -e else e }

/-- Divides by `10 ^ e`, in steps of at most `10 ^ 308`. -/
def scaleDown (x : Binary64) (e : Nat) : Nat → Binary64
  | 0 => x
  | fuel + 1 =>
    if e ≤ 308 then x.div (.ofNat (Nat.pow 10 e))
    else if x.isZero then x
    else scaleDown (x.div (.ofNat (Nat.pow 10 308))) (e - 308) fuel

/-- The binary64 number that a numeral denotes, unless it is out of range. -/
def real? (n : Numeral) : Option Binary64 := do
  let c := n.collected
  let x := Binary64.ofNat c.significand
  let y ←
    if c.exponent < 0 then
      let e := (-c.exponent).toNat
      some (scaleDown x e (e / 308 + 1))
    else if c.exponent ≤ 308 then
      let y := x.mul (.ofNat (Nat.pow 10 c.exponent.toNat))
      if y.isFinite then some y else none
    else if x.isZero then some x
    else none
  return if n.negative then y.neg else y

/-- The number that a numeral denotes. The whole number minus zero is a binary64 number. -/
def number? (n : Numeral) : Option Number :=
  let w : Int := ofDigits n.whole
  let i := if n.negative then -w else w
  if h : n.fraction = [] ∧ n.exponent = [] ∧ FitsWord i ∧ ¬(n.negative ∧ i = 0) then
    some (.whole i h.2.2.1)
  else n.real?.map .real

end Upkeep.Json.Numeral
