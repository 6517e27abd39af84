import Upkeep.Text.Number
import Upkeep.Time.Calendar

/-!
# TOML dates and times

A value may be a date, a time of day, or a date with a time of day, which may carry its offset from
Universal Time. Each reader gives what follows such a text.
-/

namespace Upkeep.Toml

open Calendar (Date)

/-- What follows a given character. -/
def after? (c : Char) (s : List Char) : Option (List Char) :=
  match s with
  | d :: r => if d = c then some r else none
  | [] => none

/-- A number of two digits within bounds. -/
def twoDigits? (least greatest : Nat) (s : List Char) : Option (Nat × List Char) :=
  match s with
  | a :: b :: r => do
    let n := 10 * (← Text.digit? a) + (← Text.digit? b)
    if least ≤ n ∧ n ≤ greatest then some (n, r) else none
  | _ => none

/-- What follows a date that exists. -/
def date? (s : List Char) : Option (List Char) := do
  let (century, r) ← twoDigits? 0 99 s
  let (year, r) ← twoDigits? 0 99 r
  let (month, r) ← twoDigits? 1 12 (← after? '-' r)
  let (day, r) ← twoDigits? 1 31 (← after? '-' r)
  let date : Date := ⟨(100 * century + year : Nat), month, day⟩
  if date.isValid then some r else none

/-- What follows a fraction of a second, if there is one. -/
def afterFraction (s : List Char) : List Char :=
  match s with
  | '.' :: d :: r => if d.isDigit then r.dropWhile Char.isDigit else s
  | _ => s

/-- What follows a time of day, down to the second. -/
def timeOfDay? (s : List Char) : Option (List Char) := do
  let (_, r) ← twoDigits? 0 23 s
  let (_, r) ← twoDigits? 0 59 (← after? ':' r)
  let (_, r) ← twoDigits? 0 60 (← after? ':' r)
  return afterFraction r

/-- What follows an offset, if there is one. -/
def afterOffset? (s : List Char) : Option (List Char) :=
  match s with
  | 'Z' :: r | 'z' :: r => some r
  | '+' :: r | '-' :: r => do
    let (_, r) ← twoDigits? 0 23 r
    let (_, r) ← twoDigits? 0 59 (← after? ':' r)
    return r
  | _ => some s

/-- What follows the time that belongs to a date. Without a time the date stands alone. -/
def afterTime? (s : List Char) : Option (List Char) :=
  match s with
  | 'T' :: r | 't' :: r | ' ' :: r =>
    match timeOfDay? r with
    | some r => afterOffset? r
    | none => some s
  | _ => some s

/-- What follows a date, a time of day or both. -/
def dateTime? (s : List Char) : Option (List Char) :=
  match date? s with
  | some r => afterTime? r
  | none => timeOfDay? s

end Upkeep.Toml
