import FileWatch.WatchOptions
import FileWatch.Failure

/-!
# Platforms that cannot report changes

Where the platform has no means of reporting changes no watcher can be started.  The calls of a
watcher still have an answer there: whatever asks for operations is refused with the operations it
asked for, and there is never anything to close or to list.
-/

namespace FileWatch.Unavailable

/-- Starting a watcher. -/
def start : Except Failure Unit := .error (.unsupported .portable)

/-- Watching a path. -/
def add (_ : Path) (o : WatchOptions) : Except Failure Unit := .error (.unsupported o.ops)

/-- Removing a path. -/
def remove (_ : Path) : Except Failure Unit := .error (.unsupported .portable)

/-- Closing. -/
def close : Except Failure Unit := .ok ()

/-- Whether operations can be reported. -/
def supports (_ : Ops) : Bool := false

/-- The watched paths. -/
def watchList : List Path := []

end FileWatch.Unavailable
