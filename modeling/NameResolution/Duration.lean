/-!
# Durations

A `Duration` is a span of time in nanoseconds. It holds at most 2^64 - 1 seconds and a nanosecond
less than another one.

* `Duration.saturatingAdd`, `Duration.add?`: adding with and without regard to that bound.
* `Duration.saturatingSub`: what is left of a span.
-/

namespace NameResolution

/-- A span of time. -/
structure Duration where
  nanos : Nat
  bounded : nanos < 0x10000000000000000 * 1000000000
  deriving DecidableEq

namespace Duration

/-- Nanoseconds of a second. -/
def second : Nat := 1000000000

/-- The longest span. -/
def longest : Duration := ⟨0x10000000000000000 * 1000000000 - 1, by decide⟩

/-- A span of `nanos` nanoseconds, or the longest one if that is too long. -/
def ofNanos (nanos : Nat) : Duration :=
  if bounded : nanos < 0x10000000000000000 * 1000000000 then ⟨nanos, bounded⟩ else longest

/-- A span of `nanos` nanoseconds, if it is not too long. -/
def ofNanos? (nanos : Nat) : Option Duration :=
  if bounded : nanos < 0x10000000000000000 * 1000000000 then some ⟨nanos, bounded⟩ else none

/-- A span of whole `seconds`. -/
def ofSeconds (seconds : Nat) : Duration := ofNanos (second * seconds)

/-- A span of whole milliseconds. -/
def ofMillis (millis : Nat) : Duration := ofNanos (1000000 * millis)

/-- No time. -/
def zero : Duration := ⟨0, by decide⟩

/-- The whole `seconds` of a span. -/
def seconds (duration : Duration) : Nat := duration.nanos / second

/-- What a span has beyond its whole seconds, in nanoseconds. -/
def subsecond (duration : Duration) : Nat := duration.nanos % second

/-- A span in milliseconds, rounded up. -/
def millisUp (duration : Duration) : Nat := (duration.nanos + 999999) / 1000000

instance : LE Duration := ⟨fun a b => a.nanos ≤ b.nanos⟩
instance : LT Duration := ⟨fun a b => a.nanos < b.nanos⟩
instance (a b : Duration) : Decidable (a ≤ b) := inferInstanceAs (Decidable (a.nanos ≤ b.nanos))
instance (a b : Duration) : Decidable (a < b) := inferInstanceAs (Decidable (a.nanos < b.nanos))
instance : Min Duration := minOfLe
instance : Max Duration := maxOfLe

theorem le_longest (duration : Duration) : duration ≤ longest :=
  Nat.le_pred_of_lt duration.bounded

/-- The spans `a` and `b` one after the other, or the `longest` span. -/
def saturatingAdd (a b : Duration) : Duration := ofNanos (a.nanos + b.nanos)

theorem le_saturatingAdd (a b : Duration) : a ≤ a.saturatingAdd b := by
  unfold saturatingAdd ofNanos
  split
  · exact Nat.le_add_right _ _
  · exact a.le_longest

/-- The spans `a` and `b` one after the other, if that is not too long. -/
def add? (a b : Duration) : Option Duration := ofNanos? (a.nanos + b.nanos)

/-- What is left of `a` after `b`. -/
def saturatingSub (a b : Duration) : Duration :=
  ⟨a.nanos - b.nanos, Nat.lt_of_le_of_lt (Nat.sub_le ..) a.bounded⟩

end Duration

end NameResolution
