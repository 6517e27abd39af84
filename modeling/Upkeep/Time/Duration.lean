import Upkeep.Binary64

/-!
# Durations

A span of time in whole nanoseconds, of at most `2 ^ 64` seconds.
-/

namespace Upkeep

def nanosPerSecond : Nat := 1000000000

def nanosPerMilli : Nat := 1000000

/-- A span of time. -/
structure Duration where
  nanos : Nat
  nanos_lt : nanos < UInt64.size * nanosPerSecond
  deriving DecidableEq

namespace Duration

/-- The longest duration. -/
def longest : Duration := ⟨UInt64.size * nanosPerSecond - 1, by decide⟩

/-- The duration of `n` nanoseconds, or the longest one. -/
def ofNanos (n : Nat) : Duration :=
  if h : n < UInt64.size * nanosPerSecond then ⟨n, h⟩ else longest

def zero : Duration := ⟨0, by decide⟩

def ofSecs (s : UInt64) : Duration :=
  ⟨s.toNat * nanosPerSecond, Nat.mul_lt_mul_of_pos_right s.toNat_lt_size (by decide)⟩

def ofMillis (m : UInt64) : Duration :=
  ⟨m.toNat * nanosPerMilli,
    Nat.lt_trans (Nat.mul_lt_mul_of_pos_right m.toNat_lt_size (by decide)) (by decide)⟩

/-- The whole seconds. -/
def secs (d : Duration) : Nat := d.nanos / nanosPerSecond

/-- The nanoseconds beyond the whole seconds. -/
def subsecNanos (d : Duration) : Nat := d.nanos % nanosPerSecond

/-- The whole milliseconds, which may exceed a word. -/
def millis (d : Duration) : Nat := d.nanos / nanosPerMilli

/-- The whole milliseconds modulo `2 ^ 64`. -/
def millisWord (d : Duration) : UInt64 := UInt64.ofNat d.millis

/-- The duration in seconds: the whole seconds and the rest, each rounded, then added. -/
def seconds (d : Duration) : Binary64 :=
  (Binary64.ofNat d.secs).add ((Binary64.ofNat d.subsecNanos).div (.ofNat nanosPerSecond))

/-- The duration in seconds to two places, halves away from zero. -/
def centiseconds (d : Duration) : Binary64 :=
  ((d.seconds.mul (.ofNat 100)).round).div (.ofNat 100)

end Duration

instance : LT Duration := ⟨fun a b => a.nanos < b.nanos⟩

instance (a b : Duration) : Decidable (a < b) := inferInstanceAs (Decidable (a.nanos < b.nanos))

end Upkeep
