import Upkeep.Time.Calendar
import Upkeep.Time.Duration

/-!
# Points in time

Points of Universal Time as seconds since 1970 and nanoseconds. Within a leap second the
nanoseconds run on from one thousand million, while the seconds stay.
-/

namespace Upkeep

/-- A point in time. -/
structure Timestamp where
  seconds : Int
  nanos : Nat
  deriving DecidableEq, Inhabited

namespace Timestamp

/-- The order in time. -/
def compare (a b : Timestamp) : Ordering :=
  (Ord.compare a.seconds b.seconds).then (Ord.compare a.nanos b.nanos)

/-- The seconds of a day. -/
def secondsPerDay : Int := 86400

def date (t : Timestamp) : Calendar.Date := .ofDays (t.seconds / secondsPerDay)

/-- The second of the day. -/
def secondOfDay (t : Timestamp) : Nat := (t.seconds % secondsPerDay).toNat

/-- The nanoseconds from `a` to `b`. Of two points that show different seconds of the day, one in a
leap second that shows the earlier of them counts that second as over. -/
def nanosUntil (a b : Timestamp) : Int :=
  let leapAdjust : Int :=
    if a.secondOfDay < b.secondOfDay ∧ nanosPerSecond ≤ a.nanos then 1
    else if b.secondOfDay < a.secondOfDay ∧ nanosPerSecond ≤ b.nanos then -1
    else 0
  (b.seconds - a.seconds + leapAdjust) * nanosPerSecond + ((b.nanos : Int) - a.nanos)

/-- The time from `a` to `b`, or zero if `b` is not later. -/
def elapsedTo (a b : Timestamp) : Duration := .ofNanos (nanosUntil a b).toNat

/-- The point that many nanoseconds later, for a point outside a leap second. -/
def advance (a : Timestamp) (n : Nat) : Timestamp :=
  let total := a.nanos + n
  ⟨a.seconds + (total / nanosPerSecond : Nat), total % nanosPerSecond⟩

end Timestamp

end Upkeep
