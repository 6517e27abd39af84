/-!
# Numbers in text

Unsigned decimal numbers as system files and dates spell them: ASCII digits only.
-/

namespace Upkeep.Text

/-- The value of an ASCII digit. -/
def digit? (c : Char) : Option Nat :=
  if '0' ≤ c && c ≤ '9' then some (c.toNat - '0'.toNat) else none

/-- The value of digits in base ten, continuing from `n`; any other character is refused. -/
def digitsFrom (n : Nat) : List Char → Option Nat
  | [] => some n
  | c :: r => do digitsFrom (10 * n + (← digit? c)) r

/-- The value of a nonempty run of digits. -/
def nat? : List Char → Option Nat
  | [] => none
  | s => digitsFrom 0 s

/-- An unsigned word of 64 bits, which may start with a plus sign. -/
def word? (s : List Char) : Option UInt64 := do
  let n ← nat? (match s with | '+' :: r => r | _ => s)
  if n < UInt64.size then some (UInt64.ofNat n) else none

/-- The digits of a number in base ten, with zeros in front up to the width. -/
def padded (width n : Nat) : List Char :=
  let ds := Nat.toDigits 10 n
  List.replicate (width - ds.length) '0' ++ ds

end Upkeep.Text
