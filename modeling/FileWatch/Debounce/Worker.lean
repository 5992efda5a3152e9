import FileWatch.Debounce.Pending
import FileWatch.Event
import FileWatch.Outlet
import FileWatch.Settings

/-!
# Completed writes

One write of a file shows up as many events.  Where the platform does not say when a writer is done,
the worker finds out: each write moves the deadline of its path, and when the path was quiet for
the whole window one completion is sent.  A path that is removed or renamed completes before the
removal is passed on; a completion from the platform itself ends the burst without another.

What is not a write passes through at once.  Of an event that says more than "written" the rest
passes through.
-/

namespace FileWatch

/-- How the end of a write is found out. -/
inductive Completion where
  /-- The platform says so. -/
  | native
  /-- The path was quiet for a while. -/
  | debounce (quiet : Duration)
deriving DecidableEq, Repr

/-- The state of the worker that completes writes. -/
structure Worker where
  /-- The bursts in progress. -/
  pending : Pending
  /-- How long a path has to be quiet. -/
  quiet : Duration
  /-- Where events go. -/
  output : Outlet Event

namespace Worker

/-- A worker at its start. -/
def fresh (quiet : Duration) : Worker := ⟨.empty, quiet, .fresh⟩

/-- The worker that a way of finding out needs, if it needs one. -/
def ofCompletion? : Completion → Option Worker
  | .native => none
  | .debounce quiet => some (fresh quiet)

/-- Send an event; whether anybody took it. -/
def send (w : Worker) (e : Event) : Bool × Worker :=
  (w.output.listening, { w with output := w.output.send e })

/-- Send the completions of some paths, one after the other, until nobody takes them. -/
def complete : Worker → List Path → Bool × Worker
  | w, [] => (true, w)
  | w, p :: rest =>
    let (taken, w) := w.send ⟨p, .closeWrite⟩
    if taken then complete w rest else (false, w)

/-- Complete the bursts whose deadline has come; whether anybody listens. -/
def fireExpired (w : Worker) (now : Instant) : Bool × Worker :=
  let (due, pending) := w.pending.takeExpired now
  { w with pending }.complete due

/-- Handle one event; whether anybody listens. -/
def handle (w : Worker) (now : Instant) (e : Event) : Bool × Worker :=
  if e.has .closeWrite then
    { w with pending := (w.pending.cancel e.path).2 }.send e
  else if e.ops.intersects (.remove ∪ .rename) then
    let (open_, pending) := w.pending.cancel e.path
    let w := { w with pending }
    if open_ then
      let (taken, w) := w.send ⟨e.path, .closeWrite⟩
      if taken then w.send e else (false, w)
    else w.send e
  else if !e.has .write then w.send e
  else
    let w := { w with pending := w.pending.arm e.path (now + w.quiet.nanos) }
    let rest := e.ops \ .write
    if rest.isEmpty then (true, w) else w.send ⟨e.path, rest⟩

/-- The input has ended: complete every burst still in progress. -/
def flush (w : Worker) : Bool × Worker :=
  let (due, pending) := w.pending.drain
  { w with pending }.complete due

/-- One turn of the worker: complete what is due, then take an event that came in.  It ends, as the
answer says, when nobody listens. -/
def turn (w : Worker) (now : Instant) (e : Event) : Bool × Worker :=
  let (go, w) := w.fireExpired now
  if go then w.handle now e else (false, w)

/-- The end of the input: complete what is due, then the rest. -/
def finish (w : Worker) (now : Instant) : Worker :=
  let (go, w) := w.fireExpired now
  if go then w.flush.2 else w

/-- A whole run over timed events and the end of the input. -/
def run (w : Worker) : List (Instant × Event) → Instant → Worker
  | [], now => w.finish now
  | (t, e) :: rest, now =>
    let (go, w) := w.turn t e
    if go then run w rest now else w

end Worker

end FileWatch
