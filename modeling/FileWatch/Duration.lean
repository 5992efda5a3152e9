/-!
# Durations and instants

Both are counts of nanoseconds: a duration is a length of time, an instant is how long after the
start of the clock it is.  The clock is never read in this library; whoever runs it says what time
it is.

Both are unbounded.  The clock of a platform is not: an instant plus a duration can lie beyond the last
instant that it can tell, and the addition then fails there.  That is left out.  Here every deadline is an
instant, however long the quiet window.
-/

namespace FileWatch

/-- A length of time. -/
structure Duration where
  nanos : Nat
deriving DecidableEq, Repr, Inhabited

/-- A point in time. -/
abbrev Instant := Nat

namespace Duration

/-- So many thousandths of a second. -/
def ofMillis (ms : Nat) : Duration := ⟨ms * 1000000⟩

/-- Whole seconds and the nanoseconds beyond. -/
def ofParts (secs nanos : Nat) : Duration := ⟨secs * 1000000000 + nanos⟩

/-- The whole seconds of a duration. -/
def secs (d : Duration) : Nat := d.nanos / 1000000000

/-- The nanoseconds beyond its whole seconds. -/
def subsecNanos (d : Duration) : Nat := d.nanos % 1000000000

/-- The whole milliseconds of a duration, or the greatest 64-bit word if there are more. -/
def millis (d : Duration) : UInt64 := UInt64.ofNat (min (d.nanos / 1000000) (UInt64.size - 1))

end Duration

end FileWatch
