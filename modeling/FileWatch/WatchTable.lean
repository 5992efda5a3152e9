import FileWatch.Dict
import FileWatch.Failure
import FileWatch.Record

/-!
# The table of watches

The table knows two ways: from a path to its watch, and from a kernel handle back to the path.  Both
are finite maps, and every operation keeps them inverse to each other: a path has one handle and a
handle one path.  The kernel does not know that rule.  It hands out one handle for two names of the
same thing, and another handle when a name has come to mean another thing; `insert` mends both.

Removing a watch takes two parties.  A caller asks the kernel to drop it and then waits until the
table no longer holds the pair; the reader of records purges the handle when the kernel confirms.
A waiter that runs out of time purges the pair itself.  `wait` is one look of a waiter at the table:
between two looks anything may happen to it.
-/

namespace FileWatch

/-- A watch that the kernel has granted. -/
structure Watch where
  /-- The kernel's number for it. -/
  handle : Handle
  /-- What it was asked for so far; it only ever grows. -/
  flags : Mask
deriving DecidableEq, Repr

/-- The watched paths and their handles. -/
structure WatchTable where
  byPath : Dict Path Watch
  byHandle : Dict Handle Path

namespace WatchTable

/-- The table without watches. -/
def empty : WatchTable := ⟨∅, ∅⟩

instance : Inhabited WatchTable := ⟨empty⟩

/-- The watch on a path. -/
def entry? (t : WatchTable) (p : Path) : Option Watch := t.byPath.find? p

def handleOf? (t : WatchTable) (p : Path) : Option Handle := (t.entry? p).map (·.handle)

/-- The path of a handle. -/
def resolve? (t : WatchTable) (h : Handle) : Option Path := t.byHandle.find? h

/-- How many paths are watched. -/
def size (t : WatchTable) : Nat := t.byPath.size

/-- Whether nothing is watched. -/
def isEmpty (t : WatchTable) : Bool := t.size == 0

/-- The watched paths in order. -/
def paths (t : WatchTable) : List Path := Path.sorted t.byPath.keys

/-- Put a watch on a path.  The handle the path had before is forgotten if it is another one, and
so is the path that had the handle before: of two names of one thing the newest wins. -/
def insert (t : WatchTable) (p : Path) (w : Watch) : WatchTable :=
  let byHandle := match t.byPath.find? p with
    | some old => if old.handle = w.handle then t.byHandle else t.byHandle.erase old.handle
    | none => t.byHandle
  let byPath := match byHandle.find? w.handle with
    | some other => if other == p then t.byPath else t.byPath.erase other
    | none => t.byPath
  ⟨byPath.insert p w, byHandle.insert w.handle p⟩

/-- Forget a handle, and its path unless that has got another one. -/
def removeHandle (t : WatchTable) (h : Handle) : Option Path × WatchTable :=
  match t.byHandle.find? h with
  | none => (none, t)
  | some p =>
    let byPath := if t.handleOf? p = some h then t.byPath.erase p else t.byPath
    (some p, ⟨byPath, t.byHandle.erase h⟩)

/-- What the kernel has to be asked for: everything the path was registered for so far and the new
flags, and whether it is registered at all. -/
def demand (t : WatchTable) (p : Path) (flags : Mask) : Mask × Bool :=
  match t.entry? p with
  | some w => (w.flags ||| flags, true)
  | none => (flags, false)

/-- Register a path, or widen its registration.  `arm` is the kernel's answer to the demand; where
it refuses, the table stays as it is. -/
def register (t : WatchTable) (p : Path) (flags : Mask)
    (arm : Mask → Bool → Except Failure Handle) : Except Failure Watch × WatchTable :=
  let (wanted, known) := t.demand p flags
  match arm wanted known with
  | .error e => (.error e, t)
  | .ok h => (.ok ⟨h, wanted⟩, t.insert p ⟨h, wanted⟩)

/-- Forget a handle that the kernel has invalidated; the path it had. -/
def purge (t : WatchTable) (h : Handle) : Option Path × WatchTable := t.removeHandle h

/-- Whether a handle stands for a path. -/
def owns (t : WatchTable) (p : Path) (h : Handle) : Bool :=
  match t.resolve? h with
  | some q => q == p
  | none => false

/-- What a waiter finds when it looks at the table. -/
inductive Wait where
  /-- The pair is gone: the wait is over. -/
  | confirmed
  /-- The pair is still there and time is up: the waiter has purged it. -/
  | forced (t : WatchTable)
  /-- The pair is still there: the waiter sleeps. -/
  | asleep

/-- One look of a caller that waits until a handle no longer stands for a path. -/
def wait (t : WatchTable) (p : Path) (h : Handle) (timeUp : Bool) : Wait :=
  if !t.owns p h then .confirmed
  else if timeUp then .forced (t.removeHandle h).2
  else .asleep

/-- Forget every watch. -/
def clear (_ : WatchTable) : WatchTable := empty

end WatchTable

end FileWatch
