import FileWatch.Dict
import FileWatch.Duration
import FileWatch.Path

/-!
# Pending completions

Each path with a burst of writes in progress has a deadline: the instant at which the burst counts
as finished unless another write comes in.  Deadlines that have passed come out earliest first, and
those of one instant in the order of their paths.
-/

namespace FileWatch

/-- The deadlines of the bursts in progress. -/
abbrev Pending := Dict Path Instant

namespace Pending

/-- Set the deadline of a path, or move it. -/
def arm (d : Pending) (p : Path) (deadline : Instant) : Pending := d.insert p deadline

/-- Forget the deadline of a path; whether it had one. -/
def cancel (d : Pending) (p : Path) : Bool × Pending := (d.contains p, d.erase p)

def nextDeadline? (d : Pending) : Option Instant := d.values.min?

/-- Earlier deadlines first, then by path. -/
def le (a b : Path × Instant) : Bool := a.2 < b.2 || (a.2 == b.2 && a.1.le b.1)

/-- The paths of some deadlines in the order in which they come due. -/
def inOrder (es : List (Path × Instant)) : List Path := (es.mergeSort le).map (·.1)

/-- Take out every path whose deadline is not after the given instant. -/
def takeExpired (d : Pending) (now : Instant) : List Path × Pending :=
  (inOrder (d.filter fun _ deadline => deadline ≤ now).entries,
    d.filter fun _ deadline => !(deadline ≤ now))

/-- Take out everything. -/
def drain (d : Pending) : List Path × Pending := (inOrder d.entries, .empty)

end Pending

end FileWatch
