import Upkeep.Text.Blank
import Upkeep.Text.Number
import Upkeep.Time.Timestamp

/-!
# RFC 3339 text

Points in time are printed in Universal Time with as many groups of three fraction digits as they
need. The reader is lenient: it takes numbers with fewer digits, blanks around the marks, any
offset and the word UTC.
-/

namespace Upkeep.Timestamp

open Calendar Text

/-! ## Printing -/

def renderYear (y : Int) : List Char :=
  if 0 ≤ y ∧ y ≤ 9999 then padded 4 y.natAbs
  else (if y < 0 then '-' else '+') :: padded 4 y.natAbs

/-- The fraction of a second: nothing, or a point and three, six or nine digits. -/
def renderFraction (nanos : Nat) : List Char :=
  if nanos = 0 then []
  else if nanos % 1000000 = 0 then '.' :: padded 3 (nanos / 1000000)
  else if nanos % 1000 = 0 then '.' :: padded 6 (nanos / 1000)
  else '.' :: padded 9 nanos

/-- Date and time of day. A leap second is the second 60. -/
def renderLocal (t : Timestamp) : List Char :=
  let d := t.date
  let s := t.secondOfDay
  let leap := if nanosPerSecond ≤ t.nanos then 1 else 0
  renderYear d.year ++ '-' :: padded 2 d.month ++ '-' :: padded 2 d.day ++
    'T' :: padded 2 (s / 3600) ++ ':' :: padded 2 (s / 60 % 60) ++
    ':' :: padded 2 (s % 60 + leap) ++ renderFraction (t.nanos % nanosPerSecond)

/-- The form for people, with a numeric offset. -/
def display (t : Timestamp) : String :=
  String.ofList (renderLocal t ++ ['+', '0', '0', ':', '0', '0'])

/-- The form for records, with the letter Z. -/
def print (t : Timestamp) : String := String.ofList (renderLocal t ++ ['Z'])

/-! ## Reading -/

def dropBlanks (s : List Char) : List Char := s.dropWhile isBlank

/-- At most `width` digits, at least one, and what follows them. -/
def number? (width : Nat) (s : List Char) : Option (Nat × List Char) :=
  let ds := (s.take width).takeWhile fun c => (digit? c).isSome
  (nat? ds).map (·, s.drop ds.length)

/-- A number of at most `width` digits in a range, after blanks. -/
def field? (width lo hi : Nat) (s : List Char) : Option (Nat × List Char) := do
  let (n, r) ← number? width (dropBlanks s)
  if lo ≤ n ∧ n ≤ hi then some (n, r) else none

/-- A year: a sign admits any number of digits, otherwise there are at most four. -/
def year? (s : List Char) : Option (Int × List Char) :=
  match dropBlanks s with
  | '-' :: r => (number? r.length r).map fun (n, r) => (-(n : Int), r)
  | '+' :: r => (number? r.length r).map fun (n, r) => ((n : Int), r)
  | r => (number? 4 r).map fun (n, r) => ((n : Int), r)

/-- A mark after blanks. -/
def mark? (c : Char) (s : List Char) : Option (List Char) :=
  match dropBlanks s with
  | d :: r => if c = d then some r else none
  | [] => none

/-- The nanoseconds of a fraction. Digits after the ninth do not count. -/
def fraction? (s : List Char) : Option (Nat × List Char) :=
  match s with
  | '.' :: r =>
    (number? 9 r).map fun (n, rest) =>
      (n * Nat.pow 10 (9 - (r.length - rest.length)), rest.dropWhile fun c => (digit? c).isSome)
  | _ => some (0, s)

/-- An offset in seconds: two digits for the hours and two for the minutes. -/
def signedOffset? (sign : Int) (s : List Char) : Option (Int × List Char) :=
  match s with
  | a :: b :: r => do
    let hours := 10 * (← digit? a) + (← digit? b)
    match r.dropWhile fun c => c = ':' || isBlank c with
    | c :: d :: r =>
      let tens ← digit? c
      if 6 ≤ tens then none
      else some (sign * (hours * 3600 + (10 * tens + (← digit? d)) * 60), r)
    | _ => none
  | _ => none

/-- The offset from Universal Time, in seconds. -/
def offset? (s : List Char) : Option (Int × List Char) :=
  match s with
  | 'Z' :: r | 'z' :: r => some (0, r)
  | '+' :: r => signedOffset? 1 r
  | '-' :: r | '−' :: r => signedOffset? (-1) r
  | u :: t :: c :: r =>
    if [u, t, c].map Char.toUpper = ['U', 'T', 'C'] then some (0, r) else none
  | _ => none

/-- The point in time that a text gives. -/
def read? (text : String) : Option Timestamp := do
  let (year, s) ← year? text.toList
  let (month, s) ← field? 2 1 12 (← mark? '-' s)
  let (day, s) ← field? 2 1 31 (← mark? '-' s)
  let s ← match s with
    | 't' :: r | 'T' :: r | ' ' :: r => some r
    | _ => none
  let (hour, s) ← field? 2 0 23 s
  let (minute, s) ← field? 2 0 59 (← mark? ':' s)
  let (second, s) ← field? 2 0 60 (← mark? ':' s)
  let (nanos, s) ← fraction? s
  let (offset, s) ← offset? (dropBlanks s)
  let date : Date := ⟨year, month, day⟩
  let stated : Timestamp :=
    { seconds := date.toDays * secondsPerDay + (hour * 3600 + minute * 60 + min second 59 : Nat)
      nanos := nanos + if second = 60 then nanosPerSecond else 0 }
  let utc := { stated with seconds := stated.seconds - offset }
  if (dropBlanks s).isEmpty && date.isValid && offset.natAbs < 86400 && utc.date.isValid then
    some utc
  else none

end Upkeep.Timestamp
